import Gameos.TetrisFalling
import Mathlib.Tactic.LinearCombination

namespace Tetris

variable {block coords a b : Block_Coords} {game after : Game} {sorter : Layer_Sort} {axis : Rotation_Axis}

-- The rotation of rotate_90_doubled, on differences that do not overflow.
def Vector3.turn (axis : Rotation_Axis) (v : Vector3) : Vector3 :=
  match axis with
  | .X => ⟨v.x,-v.z,v.y⟩
  | .Y => ⟨v.z,v.y,-v.x⟩
  | .Z => ⟨-v.y,v.x,v.z⟩

theorem Vector3.turn_four (axis : Rotation_Axis) (v : Vector3) : (((v.turn axis).turn axis).turn axis).turn axis = v := by
  cases axis <;> simp [turn]

def Vector3.minus (v w : Vector3) : Vector3 := ⟨v.x-w.x,v.y-w.y,v.z-w.z⟩

def Vector3.square (v : Vector3) : Int := v.x*v.x + v.y*v.y + v.z*v.z

theorem Vector3.turn_minus (axis : Rotation_Axis) (v w : Vector3) :
    (v.turn axis).minus (w.turn axis) = (v.minus w).turn axis := by
  cases axis <;> simp [turn,minus,neg_add_eq_sub]

theorem Vector3.turn_square (axis : Rotation_Axis) (v : Vector3) : (v.turn axis).square = v.square := by
  cases axis <;> simp only [turn,square] <;> ring

-- A block's centre, doubled and seen from the doubled centre of its body.
def Block_Coords.seenFrom (centre : Vector3) (block : Block_Coords) : Vector3 :=
  ⟨2*block.x - centre.x,2*block.y - centre.y,2*block.z - centre.z⟩

def squaredDistance (a b : Block_Coords) : Int :=
  ((a.x : Int) - b.x)^2 + ((a.y : Int) - b.y)^2 + ((a.z : Int) - b.z)^2

theorem seenFrom_distance (centre : Vector3) (a b : Block_Coords) :
    ((a.seenFrom centre).minus (b.seenFrom centre)).square = 4*squaredDistance a b := by
  simp only [Block_Coords.seenFrom,Vector3.minus,Vector3.square,squaredDistance]
  ring

theorem seenFrom_unique {centre : Vector3} (same : a.seenFrom centre = b.seenFrom centre) : a = b := by
  obtain ⟨x,y,z⟩ := a
  obtain ⟨x',y',z'⟩ := b
  simp only [Block_Coords.seenFrom,Vector3.mk.injEq,Block_Coords.mk.injEq] at same ⊢
  omega

-- The least and the greatest of some coordinates.
structure Bounds (values : List Nat) (lo hi : Nat) : Prop where
  low : lo ∈ values
  high : hi ∈ values
  between : ∀ v ∈ values, lo ≤ v ∧ v ≤ hi

def boxSum (values : List Nat) : Int := ((values.foldl min U32_MAX + values.foldl max 0 : Nat) : Int)

-- min + max of each coordinate: the doubled centre of the bounding box.
def doubledCentre (blocks : List Block_Coords) : Vector3 :=
  ⟨boxSum (blocks.map (·.x)),boxSum (blocks.map (·.y)),boxSum (blocks.map (·.z))⟩

theorem le_foldl_min (values : List Nat) (start n : Nat) :
    n ≤ values.foldl min start ↔ n ≤ start ∧ ∀ v ∈ values, n ≤ v := by
  induction values generalizing start with
  | nil => simp
  | cons v rest ih => rw [List.foldl_cons,ih,Nat.le_min]; simp [and_assoc]

theorem foldl_max_le (values : List Nat) (start n : Nat) :
    values.foldl max start ≤ n ↔ start ≤ n ∧ ∀ v ∈ values, v ≤ n := by
  induction values generalizing start with
  | nil => simp
  | cons v rest ih => rw [List.foldl_cons,ih,Nat.max_le]; simp [and_assoc]

theorem Bounds.sum {values : List Nat} (bounds : Bounds values lo hi) (small : hi ≤ U32_MAX) : boxSum values = lo + hi := by
  have least : values.foldl min U32_MAX = lo := by
    apply Nat.le_antisymm
    · exact ((le_foldl_min values _ _).mp (Nat.le_refl _)).2 lo bounds.low
    · have ordered := (bounds.between lo bounds.low).2
      exact (le_foldl_min values _ _).mpr ⟨Nat.le_trans ordered small,fun v member => (bounds.between v member).1⟩
  have greatest : values.foldl max 0 = hi := by
    apply Nat.le_antisymm
    · exact (foldl_max_le values _ _).mpr ⟨Nat.zero_le _,fun v member => (bounds.between v member).2⟩
    · exact ((foldl_max_le values _ _).mp (Nat.le_refl _)).2 hi bounds.high
  unfold boxSum
  rw [least,greatest]
  exact Int.natCast_add lo hi

theorem bounds_exist {values : List Nat} (some : values ≠ []) : ∃ lo hi, Bounds values lo hi := by
  induction values with
  | nil => exact absurd rfl some
  | cons v rest ih =>
      rcases rest with _ | ⟨w,rest⟩
      · exact ⟨v,v,List.mem_singleton_self v,List.mem_singleton_self v,fun u member => by
          rw [List.mem_singleton.mp member]
          exact ⟨Nat.le_refl v,Nat.le_refl v⟩⟩
      · obtain ⟨lo,hi,low,high,between⟩ := ih (List.cons_ne_nil w rest)
        refine ⟨min v lo,max v hi,?_,?_,?_⟩
        · rcases Nat.le_total v lo with less | less
          · rw [Nat.min_eq_left less]; exact List.mem_cons_self
          · rw [Nat.min_eq_right less]; exact List.mem_cons_of_mem _ low
        · rcases Nat.le_total v hi with less | less
          · rw [Nat.max_eq_right less]; exact List.mem_cons_of_mem _ high
          · rw [Nat.max_eq_left less]; exact List.mem_cons_self
        · intro u member
          rcases List.mem_cons.mp member with rfl | later
          · omega
          · have := between u later
            omega


-- Doubled coordinates of such blocks fit in an s32.
def Low (blocks : List Block_Coords) : Prop := ∀ block ∈ blocks, block.x < 2^30 ∧ block.y < 2^30 ∧ block.z < 2^30

theorem minMaxSum_exact {values : List Nat} (bounds : Bounds values lo hi) (low : hi < 2^30) :
    minMaxSum values = boxSum values ∧ boxSum values = lo + hi := by
  have sum := bounds.sum (by unfold U32_MAX; omega)
  have ordered := (bounds.between lo bounds.low).2
  refine ⟨?_,sum⟩
  have whole : boxSum values = ((values.foldl min U32_MAX + values.foldl max 0 : Nat) : Int) := rfl
  unfold minMaxSum
  rw [Int.natCast_mod,← whole,sum]
  obtain ⟨k,value⟩ := s32_exact (((lo : Int) + hi) % ((2^32 : Nat) : Int))
  have range := s32_range (((lo : Int) + hi) % ((2^32 : Nat) : Int))
  omega

-- What one coordinate of the body's box has to do with a block.
structure Centred (centre : Int) (v : Nat) : Prop where
  nonnegative : 0 ≤ centre ∧ centre < 2^31
  near : -2^30 < 2*(v : Int) - centre ∧ 2*(v : Int) - centre < 2^30

theorem coordinate_centred {blocks : List Block_Coords} (f : Block_Coords → Nat) (low : ∀ block ∈ blocks, f block < 2^30)
    (member : block ∈ blocks) :
    minMaxSum (blocks.map f) = boxSum (blocks.map f) ∧ Centred (boxSum (blocks.map f)) (f block) := by
  obtain ⟨lo,hi,bounds⟩ := bounds_exist (List.ne_nil_of_mem (List.mem_map_of_mem (f := f) member))
  obtain ⟨highest,present,top⟩ := List.mem_map.mp bounds.high
  have small := low highest present
  rw [top] at small
  obtain ⟨same,sum⟩ := minMaxSum_exact bounds small
  have inside := bounds.between (f block) (List.mem_map_of_mem member)
  exact ⟨same,by rw [sum]; constructor <;> omega⟩

-- One coordinate of the rotated block, kept in place or turned.
theorem kept_low {c c' : Int} {v w : Nat} (own : Centred c v) (other : 0 ≤ c' ∧ c' < 2^31) (small : w < 2^30)
    (same : s32 (c' + s32 (s32 (s32 v*2) - c)) = 2*w) : (2*w - c' : Int) = 2*v - c := by
  obtain ⟨k,exact⟩ := kept_exact c c' v
  obtain ⟨_,near⟩ := own
  omega

theorem turned_low {c c' : Int} {v w : Nat} (own : Centred c v) (other : 0 ≤ c' ∧ c' < 2^31) (small : w < 2^30)
    (same : s32 (c' + s32 (-s32 (s32 (s32 v*2) - c))) = 2*w) : (2*w - c' : Int) = -(2*v - c) := by
  obtain ⟨k,exact⟩ := turned_exact c c' v
  obtain ⟨_,near⟩ := own
  omega

-- Where nothing overflows, a rotated block is its block turned about the centre.
theorem rotatedBlock_turns {blocks : List Block_Coords} (low : Low blocks) (member : block ∈ blocks)
    (rotated : rotatedBlock game (center_twice blocks) axis block = some coords) :
    coords.seenFrom (doubledCentre blocks) = (block.seenFrom (doubledCentre blocks)).turn axis ∧
      coords.x < 2^30 ∧ coords.y < 2^30 ∧ coords.z < 2^30 := by
  obtain ⟨x_same,x⟩ := coordinate_centred (·.x) (fun block member => (low block member).1) member
  obtain ⟨y_same,y⟩ := coordinate_centred (·.y) (fun block member => (low block member).2.1) member
  obtain ⟨z_same,z⟩ := coordinate_centred (·.z) (fun block member => (low block member).2.2) member
  have range := rotate_range (center_twice blocks) axis block
  have image := (rotatedBlock_exact rotated).1
  rw [image] at range
  have small : coords.x < 2^30 ∧ coords.y < 2^30 ∧ coords.z < 2^30 := by
    obtain ⟨first,second,third⟩ := range
    dsimp only at first second third
    exact ⟨by omega,by omega,by omega⟩
  refine ⟨?_,small⟩
  unfold center_twice at image
  rw [x_same,y_same,z_same] at image
  have first := congrArg Vector3.x image
  have second := congrArg Vector3.y image
  have third := congrArg Vector3.z image
  unfold Block_Coords.seenFrom doubledCentre Vector3.turn
  cases axis with
  | X =>
      simp only [rotate_90_doubled,Vector3.of] at first second third
      simp only [Vector3.mk.injEq]
      exact ⟨kept_low x x.1 small.1 first,turned_low z y.1 small.2.1 second,kept_low y z.1 small.2.2 third⟩
  | Y =>
      simp only [rotate_90_doubled,Vector3.of] at first second third
      simp only [Vector3.mk.injEq]
      exact ⟨kept_low z x.1 small.1 first,kept_low y y.1 small.2.1 second,turned_low x z.1 small.2.2 third⟩
  | Z =>
      simp only [rotate_90_doubled,Vector3.of] at first second third
      simp only [Vector3.mk.injEq]
      exact ⟨turned_low y x.1 small.1 first,kept_low x y.1 small.2.1 second,kept_low z z.1 small.2.2 third⟩


-- Each block of one body, turned about its centre, is a block of the other.
structure Turned (axis : Rotation_Axis) (blocks images : List Block_Coords) : Prop where
  ahead : ∀ block ∈ blocks, ∃ image ∈ images,
    image.seenFrom (doubledCentre blocks) = (block.seenFrom (doubledCentre blocks)).turn axis
  back : ∀ image ∈ images, ∃ block ∈ blocks,
    image.seenFrom (doubledCentre blocks) = (block.seenFrom (doubledCentre blocks)).turn axis

section Centre
variable {blocks images : List Block_Coords} {f g : Block_Coords → Nat} {c' sign : Int}

theorem coordinate_bounds (some : blocks ≠ []) (low : ∀ block ∈ blocks, f block < 2^30) :
    ∃ lo hi, Bounds (blocks.map f) lo hi ∧ boxSum (blocks.map f) = lo + hi := by
  have mapped : blocks.map f ≠ [] := by simpa using some
  obtain ⟨lo,hi,bounds⟩ := bounds_exist mapped
  obtain ⟨highest,present,top⟩ := List.mem_map.mp bounds.high
  have small := low highest present
  rw [top] at small
  exact ⟨lo,hi,bounds,(minMaxSum_exact bounds small).2⟩

-- The coordinate g of the images is the coordinate f of the blocks, carried
-- forwards or backwards from one half-integer centre to another.
theorem coordinate_centre (some : images ≠ []) (low : ∀ block ∈ blocks, f block < 2^30)
    (low' : ∀ image ∈ images, g image < 2^30) (signs : sign = 1 ∨ sign = -1)
    (ahead : ∀ block ∈ blocks, ∃ image ∈ images, 2*(g image : Int) - c' = sign*(2*f block - boxSum (blocks.map f)))
    (back : ∀ image ∈ images, ∃ block ∈ blocks, 2*(g image : Int) - c' = sign*(2*f block - boxSum (blocks.map f))) :
    boxSum (images.map g) = c' := by
  obtain ⟨image,member⟩ := List.exists_mem_of_ne_nil _ some
  obtain ⟨block,source,_⟩ := back image member
  obtain ⟨lo,hi,bounds,sum⟩ := coordinate_bounds (List.ne_nil_of_mem source) low
  obtain ⟨lo',hi',bounds',sum'⟩ := coordinate_bounds some low'
  obtain ⟨least,low_member,low_value⟩ := List.mem_map.mp bounds.low
  obtain ⟨greatest,high_member,high_value⟩ := List.mem_map.mp bounds.high
  obtain ⟨least',low_member',low_value'⟩ := List.mem_map.mp bounds'.low
  obtain ⟨greatest',high_member',high_value'⟩ := List.mem_map.mp bounds'.high
  obtain ⟨p,p_member,p_same⟩ := ahead least low_member
  obtain ⟨q,q_member,q_same⟩ := ahead greatest high_member
  obtain ⟨r,r_member,r_same⟩ := back least' low_member'
  obtain ⟨t,t_member,t_same⟩ := back greatest' high_member'
  have p_between := bounds'.between _ (List.mem_map_of_mem p_member)
  have q_between := bounds'.between _ (List.mem_map_of_mem q_member)
  have r_between := bounds.between _ (List.mem_map_of_mem r_member)
  have t_between := bounds.between _ (List.mem_map_of_mem t_member)
  rw [low_value] at p_same
  rw [high_value] at q_same
  rw [low_value'] at r_same
  rw [high_value'] at t_same
  rcases signs with rfl | rfl <;> omega

theorem Turned.coordinate (turned : Turned axis blocks images) (some : images ≠ []) (low : ∀ block ∈ blocks, f block < 2^30)
    (low' : ∀ image ∈ images, g image < 2^30) (signs : sign = 1 ∨ sign = -1)
    (same : ∀ block image : Block_Coords, image.seenFrom (doubledCentre blocks) = (block.seenFrom (doubledCentre blocks)).turn axis →
      2*(g image : Int) - c' = sign*(2*f block - boxSum (blocks.map f))) : boxSum (images.map g) = c' := by
  refine coordinate_centre some low low' signs (fun block member => ?_) (fun image member => ?_)
  · obtain ⟨image,present,turns⟩ := turned.ahead block member
    exact ⟨image,present,same block image turns⟩
  · obtain ⟨block,present,turns⟩ := turned.back image member
    exact ⟨block,present,same block image turns⟩

end Centre

theorem Turned.centre {blocks images : List Block_Coords} (turned : Turned axis blocks images) (low : Low blocks)
    (low' : Low images) : doubledCentre images = doubledCentre blocks := by
  by_cases some : images = []
  · subst some
    cases blocks with
    | nil => rfl
    | cons block rest =>
        obtain ⟨image,member,_⟩ := turned.ahead block List.mem_cons_self
        cases member
  have x : ∀ block ∈ blocks, block.x < 2^30 := fun block member => (low block member).1
  have y : ∀ block ∈ blocks, block.y < 2^30 := fun block member => (low block member).2.1
  have z : ∀ block ∈ blocks, block.z < 2^30 := fun block member => (low block member).2.2
  have x' : ∀ image ∈ images, image.x < 2^30 := fun image member => (low' image member).1
  have y' : ∀ image ∈ images, image.y < 2^30 := fun image member => (low' image member).2.1
  have z' : ∀ image ∈ images, image.z < 2^30 := fun image member => (low' image member).2.2
  have plus : (1 : Int) = 1 ∨ (1 : Int) = -1 := .inl rfl
  have minus : (-1 : Int) = 1 ∨ (-1 : Int) = -1 := .inr rfl
  unfold doubledCentre
  rw [Vector3.mk.injEq]
  cases axis with
  | X =>
      refine ⟨turned.coordinate some x x' plus ?_,turned.coordinate some z y' minus ?_,turned.coordinate some y z' plus ?_⟩
      · intro block image same
        have component := congrArg Vector3.x same
        simpa [Block_Coords.seenFrom,Vector3.turn,doubledCentre] using component
      · intro block image same
        have component := congrArg Vector3.y same
        simpa [Block_Coords.seenFrom,Vector3.turn,doubledCentre] using component
      · intro block image same
        have component := congrArg Vector3.z same
        simpa [Block_Coords.seenFrom,Vector3.turn,doubledCentre] using component
  | Y =>
      refine ⟨turned.coordinate some z x' plus ?_,turned.coordinate some y y' plus ?_,turned.coordinate some x z' minus ?_⟩
      · intro block image same
        have component := congrArg Vector3.x same
        simpa [Block_Coords.seenFrom,Vector3.turn,doubledCentre] using component
      · intro block image same
        have component := congrArg Vector3.y same
        simpa [Block_Coords.seenFrom,Vector3.turn,doubledCentre] using component
      · intro block image same
        have component := congrArg Vector3.z same
        simpa [Block_Coords.seenFrom,Vector3.turn,doubledCentre] using component
  | Z =>
      refine ⟨turned.coordinate some y x' minus ?_,turned.coordinate some x y' plus ?_,turned.coordinate some z z' plus ?_⟩
      · intro block image same
        have component := congrArg Vector3.x same
        simpa [Block_Coords.seenFrom,Vector3.turn,doubledCentre] using component
      · intro block image same
        have component := congrArg Vector3.y same
        simpa [Block_Coords.seenFrom,Vector3.turn,doubledCentre] using component
      · intro block image same
        have component := congrArg Vector3.z same
        simpa [Block_Coords.seenFrom,Vector3.turn,doubledCentre] using component


-- A body of distinct blocks, marked on the grid.
structure Stands (game : Game) : Prop where
  empty : game.grid.default_value = .EMPTY
  nodup : game.falling_body.Nodup
  inside : ∀ block ∈ game.falling_body, Inside game.grid block
  falling : ∀ block ∈ game.falling_body, cell game.grid block = .FALLING

-- The grid without the body.
def background (game : Game) (coords : Block_Coords) : Block_Type :=
  if coords ∈ game.falling_body then .EMPTY else cell game.grid coords

theorem Stands.rePlaced (stands : Stands game) {images : List Block_Coords} (nodup : images.Nodup)
    (inside : ∀ image ∈ images, Inside game.grid image) (accepted : ∀ image ∈ images, game.accepts image = true) :
    Stands (game.rePlace images) ∧ Grid3.Alike (game.rePlace images).grid game.grid ∧
      ∀ coords, Inside game.grid coords → background (game.rePlace images) coords = background game coords := by
  obtain ⟨alike,lifted⟩ := cells_clear stands.nodup stands.inside
  have inside' : ∀ image ∈ images, Inside (game.falling_body.foldl clearCell game.grid) image :=
    fun image member => (inside_alike alike).mpr (inside image member)
  obtain ⟨alike',placed⟩ := cells_set nodup inside' Block_Type.FALLING
  have cells : ∀ coords, Inside game.grid coords → cell (game.rePlace images).grid coords =
      if coords ∈ images then .FALLING else background game coords := by
    intro coords here
    have exact := placed coords ((inside_alike alike).mpr here)
    rw [lifted coords here,stands.empty] at exact
    exact exact
  refine ⟨⟨(alike'.trans alike).2.2.2.trans stands.empty,nodup,?_,?_⟩,alike'.trans alike,?_⟩
  · exact fun image member => (inside_alike (alike'.trans alike)).mpr (inside image member)
  · exact fun image member => (cells image (inside image member)).trans (if_pos member)
  · intro coords here
    show (if coords ∈ images then _ else cell (game.rePlace images).grid coords) = _
    rw [cells coords here]
    split
    · rename_i member
      have vacant := accepted coords member
      simp only [Game.accepts,falling_body_contains,Bool.or_eq_true,decide_eq_true_eq,List.contains_iff_mem] at vacant
      unfold background
      split
      · rfl
      · rename_i off
        exact (vacant.resolve_right off).symm
    · rfl

-- The images in order, each from its own block.
theorem mapM_images {f : Block_Coords → Option Block_Coords} {blocks images : List Block_Coords}
    (mapped : blocks.mapM f = some images) : images = blocks.map (fun block => (f block).getD block) ∧
      ∀ block ∈ blocks, f block = some ((f block).getD block) := by
  have related := mapM_related mapped
  clear mapped
  induction related with
  | nil => exact ⟨rfl,fun block member => by cases member⟩
  | cons one _ ih =>
      obtain ⟨listed,each⟩ := ih
      refine ⟨?_,fun block member => ?_⟩
      · rw [List.map_cons,← listed,one]
        rfl
      · rcases List.mem_cons.mp member with rfl | later
        · rw [one]
          rfl
        · exact each block later

theorem turn_unique {v w : Vector3} (same : v.turn axis = w.turn axis) : v = w := by
  rw [← Vector3.turn_four axis v,same,Vector3.turn_four]

-- What a successful rotation does to the body and to the grid.
structure Rotation (axis : Rotation_Axis) (game after : Game) : Prop where
  stands : Stands after
  low : Low after.falling_body
  length : after.falling_body.length = game.falling_body.length
  centre : doubledCentre after.falling_body = doubledCentre game.falling_body
  turned : Turned axis game.falling_body after.falling_body
  rigid : ∃ image : Block_Coords → Block_Coords, after.falling_body.Perm (game.falling_body.map image) ∧
    ∀ a ∈ game.falling_body, ∀ b ∈ game.falling_body, squaredDistance (image a) (image b) = squaredDistance a b
  alike : Grid3.Alike after.grid game.grid
  background : ∀ coords, Inside game.grid coords → background after coords = background game coords

theorem rotation_step (stands : Stands game) (low : Low game.falling_body)
    (rotated : try_rotating_falling_body sorter axis game = (after,true)) : Rotation axis game after := by
  unfold try_rotating_falling_body at rotated
  split at rotated
  · cases rotated
  rename_i images mapped
  have equal : game.rePlace (sorter.sort images) = after := congrArg Prod.fst rotated
  subst equal
  obtain ⟨listed,each⟩ := mapM_images mapped
  generalize named : (fun block =>
    (rotatedBlock game (center_twice game.falling_body) axis block).getD block) = image at listed
  have each' : ∀ block ∈ game.falling_body,
      rotatedBlock game (center_twice game.falling_body) axis block = some (image block) :=
    fun block member => named ▸ each block member
  have turns := fun block member => rotatedBlock_turns low member (each' block member)
  have order : (sorter.sort images).Perm (game.falling_body.map image) := listed ▸ sorter.perm images
  have source : ∀ coords ∈ sorter.sort images, ∃ block ∈ game.falling_body, image block = coords :=
    fun coords member => List.mem_map.mp (order.mem_iff.mp member)
  have unique : (sorter.sort images).Nodup := by
    refine order.nodup_iff.mpr (stands.nodup.map_on fun a left b right same => ?_)
    have seen := (turns a left).1
    rw [same,(turns b right).1] at seen
    exact (seenFrom_unique (turn_unique seen)).symm
  obtain ⟨stands',alike,same⟩ := stands.rePlaced unique
    (fun coords member => by
      obtain ⟨block,present,rfl⟩ := source coords member
      exact (rotatedBlock_exact (each' block present)).2.1)
    (fun coords member => by
      obtain ⟨block,present,rfl⟩ := source coords member
      exact (rotatedBlock_exact (each' block present)).2.2)
  have low' : Low (sorter.sort images) := by
    intro coords member
    obtain ⟨block,present,rfl⟩ := source coords member
    exact (turns block present).2
  have turned : Turned axis game.falling_body (sorter.sort images) := by
    refine ⟨fun block member => ?_,fun coords member => ?_⟩
    · exact ⟨image block,order.mem_iff.mpr (List.mem_map_of_mem member),(turns block member).1⟩
    · obtain ⟨block,present,rfl⟩ := source coords member
      exact ⟨block,present,(turns block present).1⟩
  refine ⟨stands',low',?_,turned.centre low low',turned,⟨image,order,fun a left b right => ?_⟩,alike,same⟩
  · exact order.length_eq.trans (List.length_map image)
  · have distance := seenFrom_distance (doubledCentre game.falling_body) (image a) (image b)
    rw [(turns a left).1,(turns b right).1,Vector3.turn_minus,Vector3.turn_square,seenFrom_distance] at distance
    omega

-- Four turns about one centre are none.
theorem four_rotations {g₁ g₂ g₃ : Game} (stands : Stands game) (one : Rotation axis game g₁) (two : Rotation axis g₁ g₂)
    (three : Rotation axis g₂ g₃) (four : Rotation axis g₃ after) :
    after.falling_body.Perm game.falling_body ∧ after.grid = game.grid := by
  have seen : ∀ coords ∈ after.falling_body, coords ∈ game.falling_body := by
    intro coords member
    obtain ⟨p,p_member,p_same⟩ := four.turned.back coords member
    obtain ⟨q,q_member,q_same⟩ := three.turned.back p p_member
    obtain ⟨r,r_member,r_same⟩ := two.turned.back q q_member
    obtain ⟨t,t_member,t_same⟩ := one.turned.back r r_member
    rw [three.centre,two.centre,one.centre] at p_same
    rw [two.centre,one.centre] at q_same
    rw [one.centre] at r_same
    rw [q_same,r_same,t_same,Vector3.turn_four] at p_same
    exact seenFrom_unique p_same ▸ t_member
  have length : after.falling_body.length = game.falling_body.length := by
    rw [four.length,three.length,two.length,one.length]
  have order : after.falling_body.Perm game.falling_body :=
    (List.subperm_of_subset four.stands.nodup seen).perm_of_length_le (Nat.le_of_eq length.symm)
  have alike := ((four.alike.trans three.alike).trans two.alike).trans one.alike
  refine ⟨order,Grid3.value_ext alike fun row col layer within => ?_⟩
  have here : Inside game.grid ⟨row,col,layer⟩ := alike.within.mp within
  have here₁ := (inside_alike one.alike).mpr here
  have here₂ := (inside_alike two.alike).mpr here₁
  have here₃ := (inside_alike three.alike).mpr here₂
  have same : background after ⟨row,col,layer⟩ = background game ⟨row,col,layer⟩ := by
    rw [four.background _ here₃,three.background _ here₂,two.background _ here₁,one.background _ here]
  show cell after.grid ⟨row,col,layer⟩ = cell game.grid ⟨row,col,layer⟩
  unfold background at same
  by_cases member : (⟨row,col,layer⟩ : Block_Coords) ∈ game.falling_body
  · rw [stands.falling _ member,four.stands.falling _ (order.mem_iff.mpr member)]
  · rwa [if_neg member,if_neg fun present => member (order.mem_iff.mp present)] at same

-- What a rotation should do: turn the body rigidly about the centre of its box,
-- and four times over be nothing.
structure RigidTurn (sorter : Layer_Sort) (axis : Rotation_Axis) (game : Game) : Prop where
  once : ∀ after, try_rotating_falling_body sorter axis game = (after,true) →
    after.falling_body.length = game.falling_body.length ∧ after.falling_body.Nodup ∧
    doubledCentre after.falling_body = doubledCentre game.falling_body ∧
    ∃ image : Block_Coords → Block_Coords, after.falling_body.Perm (game.falling_body.map image) ∧
      ∀ a ∈ game.falling_body, ∀ b ∈ game.falling_body, squaredDistance (image a) (image b) = squaredDistance a b
  four : ∀ g₁ g₂ g₃ after, try_rotating_falling_body sorter axis game = (g₁,true) →
    try_rotating_falling_body sorter axis g₁ = (g₂,true) → try_rotating_falling_body sorter axis g₂ = (g₃,true) →
    try_rotating_falling_body sorter axis g₃ = (after,true) →
    after.falling_body.Perm game.falling_body ∧ after.grid = game.grid

theorem rotation_rigid (sorter : Layer_Sort) (axis : Rotation_Axis) (game : Game) (stands : Stands game)
    (low : Low game.falling_body) : RigidTurn sorter axis game := by
  refine ⟨fun after rotated => ?_,fun g₁ g₂ g₃ after first second third last => ?_⟩
  · have step := rotation_step stands low rotated
    exact ⟨step.length,step.stands.nodup,step.centre,step.rigid⟩
  · have one := rotation_step stands low first
    have two := rotation_step one.stands one.low second
    have three := rotation_step two.stands two.low third
    have four := rotation_step three.stands three.low last
    exact four_rotations stands one two three four


-- Three blocks of a square, and the turn of them about Z.
def cornerBlocks : Game := {Game.new 2 2 1 0 with
  grid := [⟨0,0,0⟩,⟨0,1,0⟩,⟨1,0,0⟩].foldl (setCell · .FALLING ·) (.new 2 2 1 .EMPTY)
  falling_body := [⟨0,0,0⟩,⟨0,1,0⟩,⟨1,0,0⟩]}

theorem cornerBlocks_stands : Stands cornerBlocks ∧ Low cornerBlocks.falling_body := by
  have members : ∀ block ∈ cornerBlocks.falling_body, block = ⟨0,0,0⟩ ∨ block = ⟨0,1,0⟩ ∨ block = ⟨1,0,0⟩ :=
    fun block member => by simpa using (show block ∈ [⟨0,0,0⟩,⟨0,1,0⟩,⟨1,0,0⟩] from member)
  refine ⟨⟨rfl,by decide,fun block member => ?_,by decide⟩,fun block member => ?_⟩
  · obtain rfl | rfl | rfl := members block member
    all_goals exact ⟨by decide,by decide,by decide⟩
  · obtain rfl | rfl | rfl := members block member
    all_goals exact ⟨by decide,by decide,by decide⟩

theorem rotation_rigid_corner : (try_rotating_falling_body insertionSorter .Z cornerBlocks).2 = true ∧
    RigidTurn insertionSorter .Z cornerBlocks :=
  ⟨by decide,rotation_rigid insertionSorter .Z cornerBlocks cornerBlocks_stands.1 cornerBlocks_stands.2⟩

-- A block 2^31 layers down: twice its layer is 0 in an s32.
def deepBlock : Game := {Game.new 1 1 2147483649 0 with
  grid := setCell (.new 1 1 2147483649 .EMPTY) .FALLING ⟨0,0,2147483648⟩
  falling_body := [⟨0,0,2147483648⟩]}

theorem deepBlock_cell (layer : Nat) (inside : layer < 2147483649) :
    cell deepBlock.grid ⟨0,0,layer⟩ = if layer = 2147483648 then .FALLING else .EMPTY := by
  have here : Inside (Grid3.new 1 1 2147483649 Block_Type.EMPTY) ⟨0,0,2147483648⟩ :=
    ⟨Nat.zero_lt_one,Nat.zero_lt_one,by show 2147483648 < 2147483649; omega⟩
  have there : Inside (Grid3.new 1 1 2147483649 Block_Type.EMPTY) ⟨0,0,layer⟩ :=
    ⟨Nat.zero_lt_one,Nat.zero_lt_one,inside⟩
  have set := cell_set here there .FALLING
  have fresh : cell (Grid3.new 1 1 2147483649 Block_Type.EMPTY) ⟨0,0,layer⟩ = .EMPTY := Grid3.new_value ..
  rw [fresh] at set
  simp only [Block_Coords.mk.injEq,true_and] at set
  exact set

theorem deepBlock_stands : Stands deepBlock := by
  refine ⟨rfl,List.nodup_singleton _,fun block member => ?_,fun block member => ?_⟩
  · obtain rfl := List.mem_singleton.mp member
    exact ⟨Nat.zero_lt_one,Nat.zero_lt_one,by show 2147483648 < 2147483649; omega⟩
  · obtain rfl := List.mem_singleton.mp member
    exact (deepBlock_cell _ (by omega)).trans (if_pos rfl)

theorem deepBlock_rotated : rotatedBlock deepBlock (center_twice deepBlock.falling_body) .Z ⟨0,0,2147483648⟩ = some ⟨0,0,0⟩ := by
  have image : rotate_90_doubled ⟨0,0,2147483648⟩ (center_twice deepBlock.falling_body) .Z = ⟨0,0,0⟩ := by decide
  have accepts : deepBlock.accepts ⟨0,0,0⟩ = true := by
    unfold Game.accepts
    rw [deepBlock_cell 0 (by omega)]
    rfl
  have within : ¬((0 : Nat) ≥ deepBlock.grid.rows ∨ (0 : Nat) ≥ deepBlock.grid.cols ∨ (0 : Nat) ≥ deepBlock.grid.layers) := by
    show ¬((0 : Nat) ≥ 1 ∨ (0 : Nat) ≥ 1 ∨ (0 : Nat) ≥ 2147483649)
    omega
  unfold rotatedBlock
  rw [image]
  show (if _ ∨ _ ∨ _ then none else if _ ∨ _ ∨ _ then none else if _ then _ else _) = _
  rw [if_neg (by decide),if_neg (by decide)]
  exact (if_neg within).trans (if_pos accepts)

-- The turn about its own centre takes the block to the top of the grid.
theorem rotation_moves_deep_block :
    ¬∀ (sorter : Layer_Sort) (axis : Rotation_Axis) (game : Game), Stands game → RigidTurn sorter axis game := by
  intro every
  have rotated : try_rotating_falling_body insertionSorter .Z deepBlock = (deepBlock.rePlace [⟨0,0,0⟩],true) := by
    have mapped : deepBlock.falling_body.mapM (rotatedBlock deepBlock (center_twice deepBlock.falling_body) .Z) =
        some [⟨0,0,0⟩] := by
      show [(⟨0,0,2147483648⟩ : Block_Coords)].mapM _ = _
      rw [List.mapM_cons,deepBlock_rotated]
      rfl
    unfold try_rotating_falling_body
    rw [mapped]
    rfl
  obtain ⟨_,_,centre,_⟩ := (every insertionSorter .Z deepBlock deepBlock_stands).once _ rotated
  exact absurd centre (by decide)

end Tetris
