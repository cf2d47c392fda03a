import Gameos.TetrisFalling
import Mathlib.Data.Nat.Count

namespace Tetris
open PointwiseLoops TransitionRuns

def skip_if_is_falling (grid : Grid3 Block_Type) (row col layer : Nat) : Bool :=
  decide (grid.value row col layer = .FALLING)

-- The grids and the write cursor of the compaction loop.
structure Compaction where
  grid : Grid3 Block_Type
  body_indices : Grid3 Nat
  write_layer : Int

def compactLayer (layer_destroyed : List Bool) (s : Compaction) (read_layer : Nat) : Compaction :=
  if layer_destroyed.getD read_layer false then s
  else if (read_layer : Int) = s.write_layer then {s with write_layer := s.write_layer-1}
  else
    let grid := s.grid.copy_layer read_layer s.write_layer.toNat skip_if_is_falling
    let body_indices := s.body_indices.copy_layer read_layer s.write_layer.toNat fun _ => skip_if_is_falling grid
    ⟨grid,body_indices,s.write_layer-1⟩

def clearLayers (s : Compaction) (layer : Nat) : Compaction :=
  let grid := s.grid.clear_layer layer skip_if_is_falling
  let body_indices := s.body_indices.clear_layer layer fun _ => skip_if_is_falling grid
  {s with grid := grid, body_indices := body_indices}

-- update: the scheduled layers are taken out and those above them come down.
def destroyLayers (game : Game) : Game :=
  if game.layers_to_destroy.length > 0 then
    let layer_destroyed := game.layers_to_destroy.foldl (·.set · true) (List.replicate game.grid.layers false)
    let compacted := (List.range game.grid.layers).reverse.foldl (compactLayer layer_destroyed)
      ⟨game.grid,game.body_indices,game.grid.layers-1⟩
    let cleared := (List.range (compacted.write_layer+1).toNat).reverse.foldl clearLayers compacted
    {game with grid := cleared.grid, body_indices := cleared.body_indices, layers_to_destroy := []}
  else game

-- How many of the destroyed layers lie below (at a higher index than) a layer.
def destroyedBelow (layers : Nat) (destroyed : List Nat) (layer : Nat) : Nat :=
  Nat.count (· ∈ destroyed) layers - Nat.count (· ∈ destroyed) (layer+1)

variable {layers layer layer' : Nat} {destroyed : List Nat}

theorem count_growth (p : Nat → Prop) [DecidablePred p] {m n : Nat} (le : m ≤ n) : Nat.count p n ≤ Nat.count p m + (n-m) := by
  induction n, le using Nat.le_induction with
  | base => omega
  | succ n le ih =>
      rw [Nat.count_succ]
      split <;> omega

-- Where the surviving layers come to lie.
def landing (layers : Nat) (destroyed : List Nat) (layer : Nat) : Nat := layer + destroyedBelow layers destroyed layer

theorem landing_lt (within : layer < layers) : landing layers destroyed layer < layers := by
  have growth := count_growth (· ∈ destroyed) (n := layers) (show layer+1 ≤ layers from within)
  unfold landing destroyedBelow
  omega

theorem landing_lt_landing (before : layer < layer') (survives : layer' ∉ destroyed) (within : layer' < layers) :
    landing layers destroyed layer < landing layers destroyed layer' := by
  have growth := count_growth (· ∈ destroyed) (n := layer') (show layer+1 ≤ layer' from before)
  have mono := Nat.count_monotone (· ∈ destroyed) (show layer'+1 ≤ layers from within)
  have same : Nat.count (· ∈ destroyed) (layer'+1) = Nat.count (· ∈ destroyed) layer' := by
    rw [Nat.count_succ,if_neg survives]
    rfl
  unfold landing destroyedBelow
  omega

theorem landing_unique (survives : layer ∉ destroyed) (survives' : layer' ∉ destroyed) (within : layer < layers)
    (within' : layer' < layers) (same : landing layers destroyed layer = landing layers destroyed layer') : layer = layer' := by
  rcases Nat.lt_trichotomy layer layer' with before | equal | after
  · exact absurd same (Nat.ne_of_lt (landing_lt_landing before survives' within'))
  · exact equal
  · exact absurd same.symm (Nat.ne_of_lt (landing_lt_landing after survives within))

-- The first layer that the layers from `k` on have not filled.
def filledFrom (layers : Nat) (destroyed : List Nat) (k : Nat) : Nat :=
  k + (Nat.count (· ∈ destroyed) layers - Nat.count (· ∈ destroyed) k)

theorem filledFrom_destroyed (gone : layer ∈ destroyed) (within : layer < layers) :
    filledFrom layers destroyed layer = filledFrom layers destroyed (layer+1) := by
  have mono := Nat.count_monotone (· ∈ destroyed) (show layer+1 ≤ layers from within)
  have next : Nat.count (· ∈ destroyed) (layer+1) = Nat.count (· ∈ destroyed) layer + 1 := by
    rw [Nat.count_succ,if_pos gone]
  unfold filledFrom
  omega

theorem filledFrom_survives (layers : Nat) (survives : layer ∉ destroyed) :
    filledFrom layers destroyed layer = landing layers destroyed layer ∧
      filledFrom layers destroyed (layer+1) = landing layers destroyed layer + 1 := by
  have same : Nat.count (· ∈ destroyed) (layer+1) = Nat.count (· ∈ destroyed) layer := by
    rw [Nat.count_succ,if_neg survives]
    rfl
  unfold filledFrom landing destroyedBelow
  omega

-- Every layer from there on is where some surviving layer lands.
theorem landed (k : Nat) (low : k ≤ layers) (filled : filledFrom layers destroyed k ≤ target) (within : target < layers) :
    ∃ layer, k ≤ layer ∧ layer < layers ∧ layer ∉ destroyed ∧ landing layers destroyed layer = target := by
  induction h : layers - k generalizing k with
  | zero =>
      unfold filledFrom at filled
      omega
  | succ n ih =>
      have inside : k < layers := by omega
      by_cases gone : k ∈ destroyed
      · rw [filledFrom_destroyed gone inside] at filled
        obtain ⟨layer,above,rest⟩ := ih (k+1) inside filled (by omega)
        exact ⟨layer,by omega,rest⟩
      · obtain ⟨here,next⟩ := filledFrom_survives layers gone
        rcases Nat.eq_or_lt_of_le filled with equal | later
        · exact ⟨k,Nat.le_refl _,inside,gone,by omega⟩
        · obtain ⟨layer,above,rest⟩ := ih (k+1) inside (by omega) (by omega)
          exact ⟨layer,by omega,rest⟩

-- A falling cell is not carried along: its target keeps what it had.
def carried (source target : Block_Type) : Block_Type := if source = .FALLING then target else source

-- What the compaction has done once the layers from `k` on are read, on one
-- column of the two grids.
structure Landed (layers : Nat) (destroyed : List Nat) (k : Nat) (grid grid' : Nat → Block_Type)
    (indices indices' : Nat → Nat) : Prop where
  moved : ∀ layer, k ≤ layer → layer < layers → layer ∉ destroyed →
    grid' (landing layers destroyed layer) = carried (grid layer) (grid (landing layers destroyed layer)) ∧
      indices' (landing layers destroyed layer) =
        if grid layer = .FALLING then indices (landing layers destroyed layer) else indices layer
  kept : ∀ target, target < layers → (∀ layer, k ≤ layer → layer < layers → layer ∉ destroyed →
    landing layers destroyed layer ≠ target) → grid' target = grid target ∧ indices' target = indices target

-- Reading one more layer, on one column.
theorem landed_skip (landed : Landed layers destroyed (k+1) grid grid' indices indices') (gone : k ∈ destroyed) :
    Landed layers destroyed k grid grid' indices indices' := by
  have later : ∀ layer, k ≤ layer → layer ∉ destroyed → k+1 ≤ layer := by
    intro layer above survives
    have apart : k ≠ layer := by
      rintro rfl
      exact survives gone
    omega
  exact ⟨fun layer above within survives => landed.moved layer (later layer above survives) within survives,
    fun target within off => landed.kept target within fun layer above => off layer (by omega)⟩

theorem landed_copy (landed : Landed layers destroyed (k+1) grid grid' indices indices') (survives : k ∉ destroyed)
    (within : k < layers)
    (column : grid'' = if grid' k = .FALLING then grid' else Function.update grid' (landing layers destroyed k) (grid' k))
    (column' : indices'' = if grid' k = .FALLING then indices'
      else Function.update indices' (landing layers destroyed k) (indices' k)) :
    Landed layers destroyed k grid grid'' indices indices'' := by
  -- nothing has been written to the layer read, nor to the one it goes to
  have above : ∀ layer, k+1 ≤ layer → layer < layers → layer ∉ destroyed → landing layers destroyed k < landing layers destroyed layer :=
    fun layer later inside stays => landing_lt_landing later stays inside
  have down : k ≤ landing layers destroyed k := Nat.le_add_right _ _
  obtain ⟨source,source'⟩ := landed.kept k within fun layer later inside stays =>
    Nat.ne_of_gt (Nat.lt_of_le_of_lt down (above layer later inside stays))
  obtain ⟨target,target'⟩ := landed.kept _ (landing_lt within) fun layer later inside stays =>
    Nat.ne_of_gt (above layer later inside stays)
  have elsewhere : ∀ w, w ≠ landing layers destroyed k → grid'' w = grid' w ∧ indices'' w = indices' w := by
    intro w apart
    rw [column,column']
    split
    · exact ⟨rfl,rfl⟩
    · exact ⟨Function.update_of_ne apart _ _,Function.update_of_ne apart _ _⟩
  refine ⟨?_,?_⟩
  · intro layer from_k inside stays
    rcases Nat.eq_or_lt_of_le from_k with rfl | later
    · rw [column,column',source]
      unfold carried
      split
      · exact ⟨target,target'⟩
      · rw [Function.update_self,Function.update_self]
        exact ⟨rfl,source'⟩
    · obtain ⟨same,same'⟩ := elsewhere _ (Nat.ne_of_gt (above layer later inside stays))
      rw [same,same']
      exact landed.moved layer later inside stays
  · intro w inside off
    obtain ⟨same,same'⟩ := elsewhere w (Ne.symm (off k (Nat.le_refl k) within survives))
    rw [same,same']
    exact landed.kept w inside fun layer later => off layer (by omega)

-- The flags of the destroyed layers.
theorem flags_exact (flags : List Bool) (destroyed : List Nat) (within : layer < flags.length) :
    (destroyed.foldl (·.set · true) flags).getD layer false = (decide (layer ∈ destroyed) || flags.getD layer false) := by
  induction destroyed generalizing flags with
  | nil => simp
  | cons first rest ih =>
      rw [List.foldl_cons,ih _ (by rw [List.length_set]; exact within)]
      have here : (flags.set first true).getD layer false = (decide (layer = first) || flags.getD layer false) := by
        rw [List.getD_eq_getElem?_getD,List.getD_eq_getElem?_getD,List.getElem?_set]
        by_cases same : first = layer
        · subst same
          simp [within]
        · simp [same,Ne.symm same]
      rw [here]
      by_cases same : layer = first
      · simp [same]
      · simp [same]

theorem flag_destroyed (within : layer < layers) :
    (destroyed.foldl (·.set · true) (List.replicate layers false)).getD layer false = decide (layer ∈ destroyed) := by
  rw [flags_exact _ _ (by rw [List.length_replicate]; exact within)]
  rw [List.getD_eq_getElem?_getD,List.getElem?_replicate,if_pos within]
  simp

def InRange (g : Grid3 α) (p : Nat × Nat) : Prop := p.1 < g.rows ∧ p.2 < g.cols

structure Compacted (game : Game) (destroyed : List Nat) (k : Nat) (s : Compaction) : Prop where
  grid : Grid3.Alike s.grid game.grid
  indices : Grid3.Alike s.body_indices game.body_indices
  write : s.write_layer = filledFrom game.grid.layers destroyed k - 1
  columns : ∀ p, InRange game.grid p → Landed game.grid.layers destroyed k (game.grid.column p) (s.grid.column p)
    (game.body_indices.column p) (s.body_indices.column p)

-- Copying a layer into another, column by column.
theorem copy_columns (s : Compaction) (source target : Nat) (alike : s.body_indices.rows = s.grid.rows ∧
      s.body_indices.cols = s.grid.cols ∧ s.body_indices.layers = s.grid.layers)
    (source_lt : source < s.grid.layers) (target_lt : target < s.grid.layers) (apart : source ≠ target) :
    let grid := s.grid.copy_layer source target skip_if_is_falling
    let body_indices := s.body_indices.copy_layer source target fun _ => skip_if_is_falling grid
    Grid3.Alike grid s.grid ∧ Grid3.Alike body_indices s.body_indices ∧ ∀ p, InRange s.grid p →
      grid.column p = (if s.grid.column p source = .FALLING then s.grid.column p
        else Function.update (s.grid.column p) target (s.grid.column p source)) ∧
      body_indices.column p = (if s.grid.column p source = .FALLING then s.body_indices.column p
        else Function.update (s.body_indices.column p) target (s.body_indices.column p source)) := by
  dsimp only
  obtain ⟨shape,columns⟩ := Grid3.copy_layer_column (g := s.grid) source_lt target_lt skip_if_is_falling
    (fun _ column => decide (column source = .FALLING)) (by
      intro g p same _
      rw [skip_if_is_falling,Grid3.column_value (by rw [same.2.2.1]; exact source_lt)])
  obtain ⟨shape',columns'⟩ := Grid3.copy_layer_column (g := s.body_indices) (by rw [alike.2.2]; exact source_lt)
    (by rw [alike.2.2]; exact target_lt)
    (fun _ => skip_if_is_falling (s.grid.copy_layer source target skip_if_is_falling))
    (fun p _ => decide ((s.grid.copy_layer source target skip_if_is_falling).column p source = .FALLING)) (by
      intro g p _ _
      rw [skip_if_is_falling,Grid3.column_value (by rw [shape.2.2.1]; exact source_lt)])
  refine ⟨shape,shape',?_⟩
  intro p here
  have first := columns p here
  simp only [decide_eq_true_eq] at first
  refine ⟨first,?_⟩
  -- the source layer itself is not written
  have read : (s.grid.copy_layer source target skip_if_is_falling).column p source = s.grid.column p source := by
    rw [first]
    split
    · rfl
    · exact Function.update_of_ne apart _ _
  have second := columns' p ⟨by rw [alike.1]; exact here.1,by rw [alike.2.1]; exact here.2⟩
  simpa only [read,decide_eq_true_eq] using second

theorem compact_step (shaped : Shaped game) (compacted : Compacted game destroyed (k+1) s) (within : k < game.grid.layers) :
    Compacted game destroyed k
      (compactLayer (destroyed.foldl (·.set · true) (List.replicate game.grid.layers false)) s k) := by
  unfold compactLayer
  rw [flag_destroyed within]
  by_cases gone : k ∈ destroyed
  · rw [if_pos (decide_eq_true gone)]
    refine ⟨compacted.grid,compacted.indices,?_,fun p here => landed_skip (compacted.columns p here) gone⟩
    rw [filledFrom_destroyed gone within]
    exact compacted.write
  · rw [if_neg (by simpa using gone)]
    obtain ⟨here,next⟩ := filledFrom_survives game.grid.layers gone
    have target : s.write_layer = landing game.grid.layers destroyed k := by
      rw [compacted.write,next]
      omega
    have write : s.write_layer - 1 = filledFrom game.grid.layers destroyed k - 1 := by rw [target,here]
    split
    · rename_i same
      -- the layer stays where it is
      have equal : landing game.grid.layers destroyed k = k := by omega
      refine ⟨compacted.grid,compacted.indices,write,?_⟩
      intro p inside
      refine landed_copy (compacted.columns p inside) gone within ?_ ?_
      · rw [equal,Function.update_eq_self,ite_self]
      · rw [equal,Function.update_eq_self,ite_self]
    · rename_i apart
      have number : s.write_layer.toNat = landing game.grid.layers destroyed k := by omega
      have shape : s.body_indices.rows = s.grid.rows ∧ s.body_indices.cols = s.grid.cols ∧
          s.body_indices.layers = s.grid.layers :=
        ⟨(compacted.indices.1.trans shaped.rows).trans compacted.grid.1.symm,
          (compacted.indices.2.1.trans shaped.cols).trans compacted.grid.2.1.symm,
          (compacted.indices.2.2.1.trans shaped.layers).trans compacted.grid.2.2.1.symm⟩
      have layers := compacted.grid.2.2.1
      obtain ⟨alike,alike',columns⟩ := copy_columns s k s.write_layer.toNat shape
        (by rw [layers]; exact within) (by rw [layers,number]; exact landing_lt within) (by omega)
      refine ⟨alike.trans compacted.grid,alike'.trans compacted.indices,write,?_⟩
      intro p inside
      have inside' : InRange s.grid p := ⟨by rw [compacted.grid.1]; exact inside.1,by rw [compacted.grid.2.1]; exact inside.2⟩
      obtain ⟨first,second⟩ := columns p inside'
      refine landed_copy (compacted.columns p inside) gone within ?_ ?_
      · rw [← number]
        exact first
      · rw [← number]
        exact second

theorem compact_loop (shaped : Shaped game) (k : Nat) (low : k ≤ game.grid.layers) :
    Compacted game destroyed k ((List.range' k (game.grid.layers-k)).foldr
      (fun layer s => compactLayer (destroyed.foldl (·.set · true) (List.replicate game.grid.layers false)) s layer)
      ⟨game.grid,game.body_indices,game.grid.layers-1⟩) := by
  induction h : game.grid.layers - k generalizing k with
  | zero =>
      have equal : k = game.grid.layers := by omega
      subst equal
      refine ⟨Grid3.Alike.refl _,Grid3.Alike.refl _,?_,?_⟩
      · unfold filledFrom
        simp
      · intro p _
        refine ⟨?_,fun _ _ _ => ⟨rfl,rfl⟩⟩
        intro layer above within
        omega
  | succ n ih =>
      rw [List.range'_succ,List.foldr_cons]
      exact compact_step shaped (ih (k+1) (by omega) (by omega)) (by omega)

-- Clearing the layers above, column by column: falling cells stay.
theorem clear_columns (s : Compaction) (layer : Nat) (alike : s.body_indices.rows = s.grid.rows ∧
      s.body_indices.cols = s.grid.cols ∧ s.body_indices.layers = s.grid.layers) (layer_lt : layer < s.grid.layers) :
    Grid3.Alike (clearLayers s layer).grid s.grid ∧ Grid3.Alike (clearLayers s layer).body_indices s.body_indices ∧
    ∀ p, InRange s.grid p →
      (clearLayers s layer).grid.column p = (if s.grid.column p layer = .FALLING then s.grid.column p
        else Function.update (s.grid.column p) layer s.grid.default_value) ∧
      (s.grid.column p layer = .FALLING → s.grid.default_value ≠ .FALLING →
        (clearLayers s layer).body_indices.column p = s.body_indices.column p) ∧
      ∀ w, w ≠ layer → (clearLayers s layer).body_indices.column p w = s.body_indices.column p w := by
  unfold clearLayers
  dsimp only
  obtain ⟨shape,columns⟩ := Grid3.clear_layer_column (g := s.grid) layer_lt skip_if_is_falling
    (fun _ column => decide (column layer = .FALLING)) (by
      intro g p same _
      rw [skip_if_is_falling,Grid3.column_value (by rw [same.2.2.1]; exact layer_lt)])
  obtain ⟨shape',columns'⟩ := Grid3.clear_layer_column (g := s.body_indices) (by rw [alike.2.2]; exact layer_lt)
    (fun _ => skip_if_is_falling (s.grid.clear_layer layer skip_if_is_falling))
    (fun p _ => decide ((s.grid.clear_layer layer skip_if_is_falling).column p layer = .FALLING)) (by
      intro g p _ _
      rw [skip_if_is_falling,Grid3.column_value (by rw [shape.2.2.1]; exact layer_lt)])
  refine ⟨shape,shape',?_⟩
  intro p here
  have first := columns p here
  simp only [decide_eq_true_eq] at first
  have second := columns' p ⟨by rw [alike.1]; exact here.1,by rw [alike.2.1]; exact here.2⟩
  simp only [decide_eq_true_eq] at second
  refine ⟨first,?_,?_⟩
  · intro falling _
    rw [second,first,if_pos falling,if_pos falling]
  · intro w apart
    rw [second]
    split
    · rfl
    · exact Function.update_of_ne apart _ _

-- A column of the two grids after the layers above `bound` are cleared.
structure Cleared (bound : Nat) (grid grid' : Nat → Block_Type) (indices indices' : Nat → Nat) : Prop where
  cells : ∀ layer, grid' layer = if layer < bound then (if grid layer = .FALLING then .FALLING else .EMPTY) else grid layer
  same : ∀ layer, bound ≤ layer ∨ grid layer = .FALLING → indices' layer = indices layer

theorem cleared_step (rest : Cleared bound grid' grid'' indices' indices'')
    (column : grid' = if grid bound = .FALLING then grid else Function.update grid bound .EMPTY)
    (falling : grid bound = .FALLING → indices' = indices) (others : ∀ layer, layer ≠ bound → indices' layer = indices layer) :
    Cleared (bound+1) grid grid'' indices indices'' := by
  have here : grid' bound = if grid bound = .FALLING then .FALLING else .EMPTY := by
    rw [column]
    split
    · rename_i marked
      exact marked
    · exact Function.update_self ..
  have off : ∀ layer, layer ≠ bound → grid' layer = grid layer := by
    intro layer apart
    rw [column]
    split
    · rfl
    · exact Function.update_of_ne apart _ _
  refine ⟨?_,?_⟩
  · intro layer
    rw [rest.cells layer]
    rcases Nat.lt_trichotomy layer bound with below | equal | above
    · rw [if_pos below,if_pos (Nat.lt_succ_of_lt below),off layer (Nat.ne_of_lt below)]
    · subst equal
      rw [if_neg (Nat.lt_irrefl _),if_pos (Nat.lt_succ_self _),here]
    · rw [if_neg (Nat.lt_asymm above),if_neg (by omega),off layer (Nat.ne_of_gt above)]
  · intro layer stays
    by_cases equal : layer = bound
    · subst equal
      have marked : grid layer = .FALLING := stays.resolve_left (by omega)
      rw [rest.same layer (.inl (Nat.le_refl _)),falling marked]
    · rw [rest.same layer (stays.imp (by omega) (fun marked => by rw [off layer equal]; exact marked)),others layer equal]

theorem clear_loop (s : Compaction) (bound : Nat) (alike : s.body_indices.rows = s.grid.rows ∧
      s.body_indices.cols = s.grid.cols ∧ s.body_indices.layers = s.grid.layers) (empty : s.grid.default_value = .EMPTY)
    (within : bound ≤ s.grid.layers) :
    Grid3.Alike ((List.range bound).reverse.foldl clearLayers s).grid s.grid ∧
    Grid3.Alike ((List.range bound).reverse.foldl clearLayers s).body_indices s.body_indices ∧
    ∀ p, InRange s.grid p → Cleared bound (s.grid.column p) (((List.range bound).reverse.foldl clearLayers s).grid.column p)
      (s.body_indices.column p) (((List.range bound).reverse.foldl clearLayers s).body_indices.column p) := by
  induction bound generalizing s with
  | zero => exact ⟨Grid3.Alike.refl _,Grid3.Alike.refl _,fun p _ => ⟨fun layer => by simp,fun _ _ => rfl⟩⟩
  | succ bound ih =>
      rw [List.range_succ,List.reverse_append,List.reverse_singleton,List.singleton_append,List.foldl_cons]
      obtain ⟨shape,shape',columns⟩ := clear_columns s bound alike within
      obtain ⟨rest,rest',loop⟩ := ih (clearLayers s bound)
        ⟨(shape'.1.trans alike.1).trans shape.1.symm,(shape'.2.1.trans alike.2.1).trans shape.2.1.symm,
          (shape'.2.2.1.trans alike.2.2).trans shape.2.2.1.symm⟩ (shape.2.2.2.trans empty) (by rw [shape.2.2.1]; omega)
      refine ⟨rest.trans shape,rest'.trans shape',?_⟩
      intro p here
      obtain ⟨column,falling,others⟩ := columns p here
      rw [empty] at column falling
      exact cleared_step (loop p ⟨by rw [shape.1]; exact here.1,by rw [shape.2.1]; exact here.2⟩) column
        (fun marked => falling marked (by simp)) others

theorem filled_landing (survives : layer ∉ destroyed) (within : layer < layers) :
    filledFrom layers destroyed 0 ≤ landing layers destroyed layer := by
  have few := Nat.count_le (p := (· ∈ destroyed)) (n := layer)
  have same : Nat.count (· ∈ destroyed) (layer+1) = Nat.count (· ∈ destroyed) layer := by
    rw [Nat.count_succ,if_neg survives]
    rfl
  have mono := Nat.count_monotone (· ∈ destroyed) (show layer+1 ≤ layers from within)
  have none : Nat.count (· ∈ destroyed) 0 = 0 := Nat.count_zero _
  unfold filledFrom landing destroyedBelow
  omega

-- A column after the destruction of layers: what landed where, and what was cleared.
structure Destroyed (layers : Nat) (destroyed : List Nat) (grid grid' : Nat → Block_Type)
    (indices indices' : Nat → Nat) : Prop where
  moved : ∀ layer, layer < layers → layer ∉ destroyed →
    grid' (landing layers destroyed layer) = carried (grid layer) (grid (landing layers destroyed layer)) ∧
      indices' (landing layers destroyed layer) =
        if grid layer = .FALLING then indices (landing layers destroyed layer) else indices layer
  cleared : ∀ target, target < filledFrom layers destroyed 0 →
    grid' target = (if grid target = .FALLING then .FALLING else .EMPTY) ∧
      (grid target = .FALLING → indices' target = indices target)

theorem destroyed_columns (shaped : Shaped game) (destroyed : List Nat) (some : destroyed ≠ []) :
    let after := destroyLayers {game with layers_to_destroy := destroyed}
    Grid3.Alike after.grid game.grid ∧ Grid3.Alike after.body_indices game.body_indices ∧
    ∀ p, InRange game.grid p → Destroyed game.grid.layers destroyed (game.grid.column p) (after.grid.column p)
      (game.body_indices.column p) (after.body_indices.column p) := by
  intro after
  have compacted : Compacted game destroyed 0 _ := compact_loop shaped 0 (Nat.zero_le _)
  rw [Nat.sub_zero,← List.range_eq_range'] at compacted
  have unfolded : after = destroyLayers {game with layers_to_destroy := destroyed} := rfl
  unfold destroyLayers at unfolded
  rw [if_pos (List.length_pos_iff.mpr some)] at unfolded
  dsimp only at unfolded
  have order : ∀ (flags : List Bool) s, (List.range game.grid.layers).foldr (fun layer s => compactLayer flags s layer) s =
      (List.range game.grid.layers).reverse.foldl (compactLayer flags) s := fun _ _ => List.foldl_reverse.symm
  rw [order] at compacted
  generalize (List.range game.grid.layers).reverse.foldl
    (compactLayer (destroyed.foldl (·.set · true) (List.replicate game.grid.layers false)))
    ⟨game.grid,game.body_indices,game.grid.layers-1⟩ = s at compacted unfolded
  have number : (s.write_layer+1).toNat = filledFrom game.grid.layers destroyed 0 := by
    rw [compacted.write]
    omega
  rw [number] at unfolded
  have shape : s.body_indices.rows = s.grid.rows ∧ s.body_indices.cols = s.grid.cols ∧
      s.body_indices.layers = s.grid.layers :=
    ⟨(compacted.indices.1.trans shaped.rows).trans compacted.grid.1.symm,
      (compacted.indices.2.1.trans shaped.cols).trans compacted.grid.2.1.symm,
      (compacted.indices.2.2.1.trans shaped.layers).trans compacted.grid.2.2.1.symm⟩
  have few : filledFrom game.grid.layers destroyed 0 ≤ s.grid.layers := by
    have bound := Nat.count_le (p := (· ∈ destroyed)) (n := game.grid.layers)
    rw [compacted.grid.2.2.1]
    unfold filledFrom
    omega
  obtain ⟨alike,alike',columns⟩ := clear_loop s _ shape (compacted.grid.2.2.2.trans shaped.empty) few
  rw [unfolded]
  refine ⟨alike.trans compacted.grid,alike'.trans compacted.indices,?_⟩
  intro p here
  have loop := columns p ⟨by rw [compacted.grid.1]; exact here.1,by rw [compacted.grid.2.1]; exact here.2⟩
  have landed := compacted.columns p here
  refine ⟨?_,?_⟩
  · intro layer within survives
    have beyond := filled_landing survives within
    obtain ⟨cell,index⟩ := landed.moved layer (Nat.zero_le _) within survives
    dsimp only
    rw [loop.cells,if_neg (Nat.not_lt_of_le beyond),loop.same _ (.inl beyond)]
    exact ⟨cell,index⟩
  · intro target below
    have within : target < game.grid.layers := by
      rw [← compacted.grid.2.2.1]
      omega
    obtain ⟨cell,index⟩ := landed.kept target within fun layer _ inside survives =>
      Nat.ne_of_gt (Nat.lt_of_lt_of_le below (filled_landing survives inside))
    dsimp only
    rw [loop.cells,if_pos below,cell]
    refine ⟨rfl,?_⟩
    intro marked
    rw [loop.same _ (.inr (by rw [cell]; exact marked)),index]

-- The surviving SOLID cells have come down, the falling body stands where it
-- stood, and the indices went with their cells.
structure Survives (before after : Game) (destroyed : List Nat) : Prop where
  solid : ∀ block, Inside before.grid block → (cell after.grid block = .SOLID ↔ block ∉ before.falling_body ∧
    ∃ layer, layer < before.grid.layers ∧ layer ∉ destroyed ∧
      layer + destroyedBelow before.grid.layers destroyed layer = block.z ∧
      cell before.grid ⟨block.x,block.y,layer⟩ = .SOLID)
  falling : ∀ block, Inside before.grid block → (cell after.grid block = .FALLING ↔ block ∈ after.falling_body)
  body : after.falling_body = before.falling_body ∧ after.falling_body_index = before.falling_body_index
  indices : ∀ block, Inside before.grid block → cell before.grid block = .SOLID → block.z ∉ destroyed →
    (⟨block.x,block.y,block.z + destroyedBelow before.grid.layers destroyed block.z⟩ : Block_Coords) ∉ before.falling_body →
    cell after.body_indices ⟨block.x,block.y,block.z + destroyedBelow before.grid.layers destroyed block.z⟩ =
      cell before.body_indices block
  falling_indices : ∀ block ∈ before.falling_body, cell after.body_indices block = cell before.body_indices block

-- Where a surviving layer comes down: a block of the falling body at the place a
-- cell comes down to has one of its blocks right at the cell's own place, and a
-- block of the body does not stand in the way of taking away a SOLID cell.
def Unobstructed (game : Game) (destroyed : List Nat) : Prop :=
  ∀ x y layer, x < game.grid.rows → y < game.grid.cols → layer < game.grid.layers → layer ∉ destroyed →
    0 < destroyedBelow game.grid.layers destroyed layer →
    ((⟨x,y,layer + destroyedBelow game.grid.layers destroyed layer⟩ : Block_Coords) ∈ game.falling_body →
      (⟨x,y,layer⟩ : Block_Coords) ∈ game.falling_body) ∧
    ((⟨x,y,layer⟩ : Block_Coords) ∈ game.falling_body →
      cell game.grid ⟨x,y,layer + destroyedBelow game.grid.layers destroyed layer⟩ ≠ .SOLID)

theorem cell_column (g : Grid3 α) (x y z : Nat) (within : z < g.layers) : cell g ⟨x,y,z⟩ = g.column (x,y) z :=
  (Grid3.column_value within (x,y)).symm

-- The same, cell by cell of the game.
structure Rearranged (game after : Game) (destroyed : List Nat) : Prop where
  grid : Grid3.Alike after.grid game.grid
  indices : Grid3.Alike after.body_indices game.body_indices
  moved : ∀ x y layer, x < game.grid.rows → y < game.grid.cols → layer < game.grid.layers → layer ∉ destroyed →
    cell after.grid ⟨x,y,landing game.grid.layers destroyed layer⟩ =
      carried (cell game.grid ⟨x,y,layer⟩) (cell game.grid ⟨x,y,landing game.grid.layers destroyed layer⟩) ∧
    cell after.body_indices ⟨x,y,landing game.grid.layers destroyed layer⟩ =
      if cell game.grid ⟨x,y,layer⟩ = .FALLING then cell game.body_indices ⟨x,y,landing game.grid.layers destroyed layer⟩
      else cell game.body_indices ⟨x,y,layer⟩
  cleared : ∀ block, Inside game.grid block → block.z < filledFrom game.grid.layers destroyed 0 →
    cell after.grid block = (if cell game.grid block = .FALLING then .FALLING else .EMPTY) ∧
      (cell game.grid block = .FALLING → cell after.body_indices block = cell game.body_indices block)

theorem destroyed_rearranged (shaped : Shaped game) (destroyed : List Nat) (some : destroyed ≠ []) :
    Rearranged game (destroyLayers {game with layers_to_destroy := destroyed}) destroyed := by
  have rebuilt := destroyed_columns shaped destroyed some
  dsimp only at rebuilt
  generalize destroyLayers {game with layers_to_destroy := destroyed} = after at rebuilt
  obtain ⟨alike,alike',columns⟩ := rebuilt
  have layers := alike.2.2.1
  have layers' := alike'.2.2.1.trans shaped.layers
  refine ⟨alike,alike',?_,?_⟩
  · intro x y layer row col within survives
    have lands : landing game.grid.layers destroyed layer < game.grid.layers := landing_lt within
    have column := (columns (x,y) ⟨row,col⟩).moved layer within survives
    rw [cell_column after.grid x y _ (by rw [layers]; exact lands),
      cell_column after.body_indices x y _ (by rw [layers']; exact lands),cell_column game.grid x y layer within,
      cell_column game.grid x y _ lands,cell_column game.body_indices x y layer (by rw [shaped.layers]; exact within),
      cell_column game.body_indices x y _ (by rw [shaped.layers]; exact lands)]
    exact column
  · rintro ⟨x,y,z⟩ ⟨row,col,within⟩ few
    have column := (columns (x,y) ⟨row,col⟩).cleared z few
    rw [cell_column after.grid x y z (by rw [layers]; exact within),
      cell_column after.body_indices x y z (by rw [layers']; exact within),cell_column game.grid x y z within,
      cell_column game.body_indices x y z (by rw [shaped.layers]; exact within)]
    exact column

-- A cell is cleared, or some surviving layer lands on it.
theorem cleared_or_landed (destroyed : List Nat) (within : target < layers) :
    target < filledFrom layers destroyed 0 ∨
      ∃ layer, layer < layers ∧ layer ∉ destroyed ∧ landing layers destroyed layer = target := by
  by_cases few : target < filledFrom layers destroyed 0
  · exact .inl few
  · obtain ⟨layer,_,rest⟩ := landed 0 (Nat.zero_le _) (Nat.le_of_not_lt few) within
    exact .inr ⟨layer,rest⟩

theorem survives_unobstructed (falls : Falls game) (rearranged : Rearranged game after destroyed)
    (survives : Survives game after destroyed) : Unobstructed game destroyed := by
  intro x y layer row col within stays _
  have lands : landing game.grid.layers destroyed layer < game.grid.layers := landing_lt within
  have here : Inside game.grid ⟨x,y,layer⟩ := ⟨row,col,within⟩
  have there : Inside game.grid ⟨x,y,landing game.grid.layers destroyed layer⟩ := ⟨row,col,lands⟩
  obtain ⟨moved,_⟩ := rearranged.moved x y layer row col within stays
  refine ⟨?_,?_⟩
  · intro target
    have marked := (survives.falling _ there).mpr (by rw [survives.body.1]; exact target)
    apply (falls.falling _ here).mp
    rw [moved] at marked
    unfold carried at marked
    split at marked
    · assumption
    · exact marked
  · intro source solid
    have falling := (falls.falling _ here).mpr source
    have left := (survives.solid _ there).mp (by rw [moved,carried,if_pos falling]; exact solid)
    obtain ⟨_,other,inside,stays',same,solid'⟩ := left
    have equal := landing_unique stays' stays inside within same
    subst equal
    rw [falling] at solid'
    cases solid'

theorem unobstructed_survives (falls : Falls game) (rearranged : Rearranged game after destroyed)
    (body : after.falling_body = game.falling_body ∧ after.falling_body_index = game.falling_body_index)
    (unobstructed : Unobstructed game destroyed) : Survives game after destroyed := by
  -- what a landing leaves: the source, unless both ends are falling
  have lands : ∀ x y layer, x < game.grid.rows → y < game.grid.cols → layer < game.grid.layers → layer ∉ destroyed →
      (cell game.grid ⟨x,y,landing game.grid.layers destroyed layer⟩ = .FALLING → cell game.grid ⟨x,y,layer⟩ = .FALLING) ∧
      (cell game.grid ⟨x,y,layer⟩ = .FALLING → cell game.grid ⟨x,y,landing game.grid.layers destroyed layer⟩ ≠ .SOLID) := by
    intro x y layer row col within stays
    have here := falls.falling ⟨x,y,layer⟩ ⟨row,col,within⟩
    have there := falls.falling ⟨x,y,landing game.grid.layers destroyed layer⟩ ⟨row,col,landing_lt within⟩
    by_cases none : destroyedBelow game.grid.layers destroyed layer = 0
    · have same : landing game.grid.layers destroyed layer = layer := by rw [landing,none]; rfl
      rw [same]
      exact ⟨id,fun falling => by rw [falling]; simp⟩
    · obtain ⟨one,two⟩ := unobstructed x y layer row col within stays (Nat.pos_of_ne_zero none)
      exact ⟨fun target => here.mpr (one (there.mp target)),fun source => two (here.mp source)⟩
  refine ⟨?_,?_,body,?_,?_⟩
  · rintro ⟨x,y,z⟩ ⟨row,col,within⟩
    have there := falls.falling ⟨x,y,z⟩ ⟨row,col,within⟩
    rcases cleared_or_landed destroyed within with few | ⟨layer,inside,stays,rfl⟩
    · rw [(rearranged.cleared ⟨x,y,z⟩ ⟨row,col,within⟩ few).1]
      refine ⟨fun solid => (by split at solid <;> cases solid),?_⟩
      rintro ⟨_,layer,inside,stays,same,_⟩
      have beyond := filled_landing stays inside
      unfold landing at beyond
      omega
    · rw [(rearranged.moved x y layer row col inside stays).1]
      obtain ⟨both,free⟩ := lands x y layer row col inside stays
      unfold carried
      split
      · rename_i source
        refine ⟨fun solid => absurd solid (free source),?_⟩
        rintro ⟨_,other,inside',stays',same,solid⟩
        rw [landing_unique stays' stays inside' inside same,source] at solid
        cases solid
      · rename_i source
        refine ⟨fun solid => ⟨fun member => source (both (there.mpr member)),layer,inside,stays,rfl,solid⟩,?_⟩
        rintro ⟨_,other,inside',stays',same,solid⟩
        rw [landing_unique stays' stays inside' inside same] at solid
        exact solid
  · rintro ⟨x,y,z⟩ ⟨row,col,within⟩
    have there := falls.falling ⟨x,y,z⟩ ⟨row,col,within⟩
    rw [body.1]
    refine Iff.trans ?_ there
    rcases cleared_or_landed destroyed within with few | ⟨layer,inside,stays,rfl⟩
    · rw [(rearranged.cleared ⟨x,y,z⟩ ⟨row,col,within⟩ few).1]
      split <;> simp_all
    · rw [(rearranged.moved x y layer row col inside stays).1]
      obtain ⟨both,_⟩ := lands x y layer row col inside stays
      unfold carried
      split
      · exact Iff.rfl
      · rename_i source
        exact ⟨fun falling => absurd falling source,fun target => absurd (both target) source⟩
  · rintro ⟨x,y,layer⟩ ⟨row,col,inside⟩ solid stays _
    have moved := (rearranged.moved x y layer row col inside stays).2
    rw [if_neg (by rw [solid]; simp)] at moved
    exact moved
  · rintro ⟨x,y,z⟩ member
    obtain ⟨row,col,within⟩ := falls.inside _ member
    have falling := (falls.falling ⟨x,y,z⟩ ⟨row,col,within⟩).mpr member
    rcases cleared_or_landed destroyed within with few | ⟨layer,inside,stays,rfl⟩
    · exact (rearranged.cleared ⟨x,y,z⟩ ⟨row,col,within⟩ few).2 falling
    · have moved := (rearranged.moved x y layer row col inside stays).2
      rw [if_pos ((lands x y layer row col inside stays).1 falling)] at moved
      exact moved

theorem destroyLayers_kept (game : Game) :
    ((destroyLayers game).falling_body = game.falling_body ∧ (destroyLayers game).falling_body_index = game.falling_body_index) ∧
      (destroyLayers game).next_falling_body_index = game.next_falling_body_index := by
  unfold destroyLayers
  split <;> exact ⟨⟨rfl,rfl⟩,rfl⟩

theorem destruction_exact (shaped : Shaped game) (falls : Falls game) (some : destroyed ≠ []) :
    Survives game (destroyLayers {game with layers_to_destroy := destroyed}) destroyed ↔ Unobstructed game destroyed := by
  have rearranged := destroyed_rearranged shaped destroyed some
  exact ⟨survives_unobstructed falls rearranged,
    unobstructed_survives falls rearranged (destroyLayers_kept {game with layers_to_destroy := destroyed}).1⟩

-- A game in which full layers may also be destroyed while a body is falling.
inductive Turn where
  | command (command : Command)
  | destroy (layers : List Nat)

def turn (sorter : Layer_Sort) (s : Play) : Turn → Option Play
  | .command command => step sorter s command
  | .destroy layers =>
    if s.falling ∧ layers ≠ [] ∧ ∀ layer ∈ layers, layer < s.game.grid.layers ∧ s.game.grid.layer_filled_with layer .SOLID then
      some ⟨destroyLayers {s.game with layers_to_destroy := layers},true⟩
    else none

def Turning (sorter : Layer_Sort) (s : Play) (action : Turn) (t : Play) : Prop := turn sorter s action = some t

def Clear (s : Play) : Turn → Prop
  | .command _ => True
  | .destroy layers => Unobstructed s.game layers

theorem survives_falls (falls : Falls game) (alike : Grid3.Alike after.grid game.grid)
    (survives : Survives game after destroyed) : Falls after := by
  refine ⟨?_,?_,?_,?_⟩
  · rw [survives.body.1]
    exact falls.nodup
  · intro block member
    rw [survives.body.1] at member
    exact (inside_alike alike).mpr (falls.inside block member)
  · intro block here
    exact survives.falling block ((inside_alike alike).mp here)
  · intro block member
    rw [survives.body.1] at member
    rw [survives.falling_indices block member,survives.body.2]
    exact falls.indexed block member

theorem turn_playing (playing : Playing s) (clear : Clear s action) (moved : Turning sorter s action t) : Playing t := by
  cases action with
  | command command => exact (step_playing playing moved).1
  | destroy layers =>
      simp only [Turning,turn] at moved
      split at moved
      · rename_i possible
        obtain ⟨falling,some,_⟩ := possible
        cases moved
        obtain ⟨falls,narrow⟩ := playing.body falling
        have rearranged := destroyed_rearranged playing.shaped layers some
        have survives := (destruction_exact playing.shaped falls some).mpr clear
        obtain ⟨body,next⟩ := destroyLayers_kept {s.game with layers_to_destroy := layers}
        have alike := rearranged.grid
        have alike' := rearranged.indices
        have shaped := playing.shaped
        refine ⟨⟨?_,?_,?_,alike.2.2.2.trans shaped.empty,?_⟩,playing.roomy.alike alike,?_,?_,fun settled => (nomatch settled)⟩
        · exact (alike'.1.trans shaped.rows).trans alike.1.symm
        · exact (alike'.2.1.trans shaped.cols).trans alike.2.1.symm
        · exact (alike'.2.2.1.trans shaped.layers).trans alike.2.2.1.symm
        · rw [alike.1,alike.2.1,alike.2.2.1]
          exact shaped.small
        · rw [next]
          exact playing.known
        · intro _
          refine ⟨survives_falls falls alike survives,?_⟩
          rw [body.1]
          exact narrow
      · cases moved

theorem layers_destroyed (sorter : Layer_Sort) (rows cols layers : UInt32) (drawn : Nat)
    (large : 3 ≤ rows.toNat ∧ 2 ≤ cols.toNat ∧ 4 ≤ layers.toNat)
    (run : Run (Turning sorter) Clear ⟨Game.new rows.toNat cols.toNat layers.toNat drawn,false⟩ turns s)
    (falling : s.falling = true) (destroyed : List Nat) (some : destroyed ≠ []) :
    Survives s.game (destroyLayers {s.game with layers_to_destroy := destroyed}) destroyed ↔
      Unobstructed s.game destroyed := by
  have playing := run.keeps Playing (fun _ _ _ held clear moved => turn_playing held clear moved)
    (initial_playing rows cols layers drawn large)
  exact destruction_exact playing.shaped (playing.body falling).1 some

-- Two squares fill the lowest layer of a board of 4 by 2 by 4.
def fillingTrace (body : Nat) : List Command :=
  [.produce 3,.lower,.lower,.lower,.solidify,.produce body,.move 2 0,.lower,.lower,.lower,.solidify,.produce 0]

theorem commands_turn (run : Run (Step sorter) (fun _ _ => True) s commands t) :
    Run (Turning sorter) Clear s (commands.map .command) t := by
  induction run with
  | nil => exact .nil
  | cons _ moved _ ih => exact .cons trivial moved ih

-- A domino appears over the full layer.
theorem layers_destroyed_domino :
    ∃ s : Play, (s.falling = true ∧ s.game.grid.layer_filled_with 3 .SOLID = true) ∧
      (Survives s.game (destroyLayers {s.game with layers_to_destroy := [3]}) [3] ↔ Unobstructed s.game [3]) := by
  obtain ⟨s,run,seen⟩ := played_run insertionSorter ⟨Game.new (4 : UInt32).toNat (2 : UInt32).toNat (4 : UInt32).toNat 3,false⟩
    (fillingTrace 0) (fun s => (s.falling,s.game.grid.layer_filled_with 3 .SOLID)) (true,true) (by decide)
  simp only [Prod.mk.injEq] at seen
  exact ⟨s,seen,layers_destroyed insertionSorter 4 2 4 3 (by decide) (commands_turn run) seen.1 [3] (by simp)⟩

-- A T piece appears: its side block is overwritten by the empty cell above it.
theorem block_overwritten :
    ¬ ∀ (sorter : Layer_Sort) (rows cols layers : UInt32) (drawn : Nat) (commands : List Command) (s : Play) (destroyed : List Nat),
      3 ≤ rows.toNat ∧ 2 ≤ cols.toNat ∧ 4 ≤ layers.toNat →
      Run (Step sorter) (fun _ _ => True) ⟨Game.new rows.toNat cols.toNat layers.toNat drawn,false⟩ commands s →
      s.falling = true → destroyed ≠ [] →
      (∀ layer ∈ destroyed, layer < s.game.grid.layers ∧ s.game.grid.layer_filled_with layer .SOLID = true) →
      Survives s.game (destroyLayers {s.game with layers_to_destroy := destroyed}) destroyed := by
  intro all
  obtain ⟨s,run,seen⟩ := played_run insertionSorter ⟨Game.new (4 : UInt32).toNat (2 : UInt32).toNat (4 : UInt32).toNat 3,false⟩
    (fillingTrace 6) (fun s => (s.falling,s.game.falling_body,decide (3 < s.game.grid.layers),
      s.game.grid.layer_filled_with 3 .SOLID,
      cell (destroyLayers {s.game with layers_to_destroy := [3]}).grid ⟨1,0,1⟩))
    (true,[⟨0,0,2⟩,⟨0,0,1⟩,⟨1,0,1⟩,⟨0,0,0⟩],true,true,.EMPTY) (by decide)
  simp only [Prod.mk.injEq,decide_eq_true_eq] at seen
  obtain ⟨falling,body,deep,full,lost⟩ := seen
  have survives := all insertionSorter 4 2 4 3 _ s [3] (by decide) run falling (by simp) (by simp [deep,full])
  have falls := (falling_body_invariant insertionSorter 4 2 4 3 (by decide) run).falls falling
  have member : (⟨1,0,1⟩ : Block_Coords) ∈ s.game.falling_body := by rw [body]; decide
  have marked := (survives.falling ⟨1,0,1⟩ (falls.inside _ member)).mpr (by rw [survives.body.1]; exact member)
  rw [lost] at marked
  cases marked

end Tetris
