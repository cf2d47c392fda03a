import Mathlib.Data.List.Basic
import Mathlib.Data.List.Nodup
import Mathlib.Data.List.Range

-- gameos/gfx.hh: the draw commands of a frame, the depth test, and the swap of the buffers.
namespace FramePipeline

structure Color where
  r : UInt8
  g : UInt8
  b : UInt8
  a : UInt8

structure FramebufferFormat where
  redPos : UInt32
  greenPos : UInt32
  bluePos : UInt32

def ALPHA_POS : UInt32 := 24
def DEPTH_FAR : Nat := 4294967295
def FRAME_OVERLAP : Nat := 2

def FramebufferFormat.pack (format : FramebufferFormat) (r g b a : UInt8) : UInt32 :=
  (r.toUInt32 <<< format.redPos) ||| (g.toUInt32 <<< format.greenPos) ||| (b.toUInt32 <<< format.bluePos) |||
    (a.toUInt32 <<< ALPHA_POS)

def lerp (a b : UInt8) (pos max : Int) : UInt8 := UInt8.ofInt ((a.toNat : Int) + (((b.toNat : Int) - a.toNat) * pos).tdiv max)

def blendWith (format : FramebufferFormat) (raw : UInt32) (fg : Color) : UInt32 :=
  if fg.a = 0 then raw
  else if fg.a = 255 then format.pack fg.r fg.g fg.b 0xFF
  else
    let r := ((raw >>> format.redPos) &&& 0xFF).toUInt8
    let g := ((raw >>> format.greenPos) &&& 0xFF).toUInt8
    let b := ((raw >>> format.bluePos) &&& 0xFF).toUInt8
    format.pack (lerp r fg.r fg.a.toNat 255) (lerp g fg.g fg.a.toNat 255) (lerp b fg.b fg.a.toNat 255) 0xFF

-- What initialize has found and asserted. `count` is GFX_PIXEL_COUNT.
structure Screen where
  width : Nat
  height : Nat
  stride : Nat
  count : Nat
  format : FramebufferFormat
  counted : count = width * height
  row_fits : width ≤ stride

-- A call of set_pixel with a depth.
structure Fragment where
  x : Nat
  y : Nat
  color : Color
  depth : Nat
  writeDepth : Bool
  depth_fits : depth ≤ DEPTH_FAR

section Commands
variable {Globals Command3D Command2D CommandUi : Type}

-- The calls of set_pixel that a command leads to. Meshes and triangles are drawn with the
-- projection and the cull mode as they are then.
structure Rasterizer (Globals Command3D Command2D CommandUi : Type) where
  draw3D : Globals → Command3D → List Fragment
  draw2D : Globals → Command2D → List Fragment
  drawUi : Globals → CommandUi → List Fragment

structure FrameData (Command3D Command2D CommandUi : Type) where
  backBuffer : Nat → UInt32
  depthBuffer : Nat → Nat
  drawCommands3D : List Command3D
  drawCommands2D : List Command2D
  drawCommandsUi : List (UInt8 × CommandUi)

structure Gfx (Command3D Command2D CommandUi : Type) where
  frontBuffer : Nat → UInt32
  frames : Nat → FrameData Command3D Command2D CommandUi
  frameNumber : UInt8

inductive Call (Globals Command3D Command2D CommandUi : Type) where
  | queue3D (command : Command3D)
  | queue2D (command : Command2D)
  | queueUi (z : UInt8) (command : CommandUi)
  | clear (color : Color)
  | setPixelImmediate (x y : Nat) (color : Color)
  | drawFrame (globals : Globals)

def Screen.index (screen : Screen) (x y : Nat) : Nat := y * screen.stride + x

-- The assertions of set_pixel, and that of Static_Array.
def Screen.Inside (screen : Screen) (x y : Nat) : Prop := x < screen.width ∧ y < screen.height ∧ screen.index x y < screen.count

instance (screen : Screen) (x y : Nat) : Decidable (screen.Inside x y) := inferInstanceAs (Decidable (_ ∧ _ ∧ _))

def currentSlot (frameNumber : UInt8) : Nat := frameNumber.toNat % FRAME_OVERLAP

def Gfx.currentFrame (gfx : Gfx Command3D Command2D CommandUi) : FrameData Command3D Command2D CommandUi :=
  gfx.frames (currentSlot gfx.frameNumber)

def Gfx.setCurrent (gfx : Gfx Command3D Command2D CommandUi) (frame : FrameData Command3D Command2D CommandUi) :
    Gfx Command3D Command2D CommandUi :=
  {gfx with frames := Function.update gfx.frames (currentSlot gfx.frameNumber) frame}

def setPixel (screen : Screen) (frame : FrameData Command3D Command2D CommandUi) (f : Fragment) :
    Option (FrameData Command3D Command2D CommandUi) :=
  if screen.Inside f.x f.y then
    let index := screen.index f.x f.y
    if f.depth ≠ DEPTH_FAR ∧ frame.depthBuffer index ≤ f.depth then some frame
    else
      let backBuffer := Function.update frame.backBuffer index (blendWith screen.format (frame.backBuffer index) f.color)
      if f.depth ≠ DEPTH_FAR ∧ f.writeDepth then
        some {frame with backBuffer := backBuffer, depthBuffer := Function.update frame.depthBuffer index f.depth}
      else some {frame with backBuffer := backBuffer}
  else none

def paint (screen : Screen) (frame : FrameData Command3D Command2D CommandUi) :
    List Fragment → Option (FrameData Command3D Command2D CommandUi)
  | [] => some frame
  | f :: fs => (setPixel screen frame f).bind fun frame => paint screen frame fs

-- kstd_memset32 over the whole of an array.
def filled {α : Type} (screen : Screen) (value : α) (buffer : Nat → α) : Nat → α := fun i => if i < screen.count then value else buffer i

def everyPixel (screen : Screen) (color : Color) : List Fragment :=
  (List.range screen.height).flatMap fun y => (List.range screen.width).map fun x => ⟨x,y,color,DEPTH_FAR,true,Nat.le_refl _⟩

def clear (screen : Screen) (frame : FrameData Command3D Command2D CommandUi) (color : Color) :
    Option (FrameData Command3D Command2D CommandUi) :=
  (paint screen frame (everyPixel screen color)).map fun frame => {frame with depthBuffer := filled screen DEPTH_FAR frame.depthBuffer}

-- std::stable_sort by z.
def sortedUi (commands : List (UInt8 × CommandUi)) : List (UInt8 × CommandUi) := commands.mergeSort fun a b => decide (a.1 ≤ b.1)

def swapBuffers (screen : Screen) (gfx : Gfx Command3D Command2D CommandUi) : Gfx Command3D Command2D CommandUi :=
  let current := gfx.currentFrame
  let frontBuffer := fun i => if i < screen.count then current.backBuffer i else gfx.frontBuffer i
  let next : Gfx Command3D Command2D CommandUi := ⟨frontBuffer,gfx.frames,gfx.frameNumber + 1⟩
  next.setCurrent {next.currentFrame with
    backBuffer := filled screen 0 next.currentFrame.backBuffer, depthBuffer := filled screen DEPTH_FAR next.currentFrame.depthBuffer}

def drawFrame (rasterizer : Rasterizer Globals Command3D Command2D CommandUi) (screen : Screen) (globals : Globals)
    (gfx : Gfx Command3D Command2D CommandUi) : Option (Gfx Command3D Command2D CommandUi) :=
  (paint screen gfx.currentFrame (gfx.currentFrame.drawCommands3D.flatMap (rasterizer.draw3D globals))).bind fun frame =>
    (paint screen {frame with drawCommands3D := []} (frame.drawCommands2D.flatMap (rasterizer.draw2D globals))).bind fun frame =>
      (paint screen {frame with drawCommands2D := []}
        ((sortedUi frame.drawCommandsUi).flatMap fun command => rasterizer.drawUi globals command.2)).map fun frame =>
          swapBuffers screen (gfx.setCurrent {frame with drawCommandsUi := []})

def Gfx.perform (rasterizer : Rasterizer Globals Command3D Command2D CommandUi) (screen : Screen) (gfx : Gfx Command3D Command2D CommandUi) :
    Call Globals Command3D Command2D CommandUi → Option (Gfx Command3D Command2D CommandUi)
  | .queue3D command =>
    some (gfx.setCurrent {gfx.currentFrame with drawCommands3D := gfx.currentFrame.drawCommands3D ++ [command]})
  | .queue2D command =>
    some (gfx.setCurrent {gfx.currentFrame with drawCommands2D := gfx.currentFrame.drawCommands2D ++ [command]})
  | .queueUi z command =>
    some (gfx.setCurrent {gfx.currentFrame with drawCommandsUi := gfx.currentFrame.drawCommandsUi ++ [(z,command)]})
  | .clear color => (clear screen gfx.currentFrame color).map gfx.setCurrent
  | .setPixelImmediate x y color =>
    if screen.Inside x y then
      let index := screen.index x y
      let frame := gfx.currentFrame
      some {gfx.setCurrent {frame with
          backBuffer := Function.update frame.backBuffer index (blendWith screen.format (frame.backBuffer index) color)} with
        frontBuffer := Function.update gfx.frontBuffer index (blendWith screen.format (gfx.frontBuffer index) color)}
    else none
  | .drawFrame globals => drawFrame rasterizer screen globals gfx

def Gfx.run (rasterizer : Rasterizer Globals Command3D Command2D CommandUi) (screen : Screen) (gfx : Gfx Command3D Command2D CommandUi) :
    List (Call Globals Command3D Command2D CommandUi) → Option (Gfx Command3D Command2D CommandUi)
  | [] => some gfx
  | call :: calls => (gfx.perform rasterizer screen call).bind fun gfx => gfx.run rasterizer screen calls

-- After initialize. What is behind the last pixel of a buffer is anything.
def initialized (screen : Screen) (front : Nat → UInt32) (frames : Nat → FrameData Command3D Command2D CommandUi) :
    Gfx Command3D Command2D CommandUi where
  frontBuffer := filled screen 0 front
  frames := fun slot => {frames slot with
    backBuffer := filled screen 0 (frames slot).backBuffer
    depthBuffer := filled screen DEPTH_FAR (frames slot).depthBuffer
    drawCommands3D := []
    drawCommands2D := []
    drawCommandsUi := []}
  frameNumber := 0

end Commands

-- Without buffers: what a fragment is hidden by.
def Fragment.solid (f : Fragment) : Bool := decide (f.depth ≠ DEPTH_FAR) && f.writeDepth

def Fragment.survives (earlier : List Fragment) (f : Fragment) : Bool :=
  decide (f.depth = DEPTH_FAR) || earlier.all fun other => !other.solid || decide (f.depth < other.depth)

def survivors (earlier : List Fragment) : List Fragment → List Fragment
  | [] => []
  | f :: fs => if f.survives earlier then f :: survivors (earlier ++ [f]) fs else survivors (earlier ++ [f]) fs

def shaded (format : FramebufferFormat) (raw : UInt32) (fs : List Fragment) : UInt32 :=
  fs.foldl (fun raw f => blendWith format raw f.color) raw

def Fragment.on (x y : Nat) (f : Fragment) : Bool := decide (f.x = x ∧ f.y = y)
def fragmentsAt (x y : Nat) (fs : List Fragment) : List Fragment := fs.filter (Fragment.on x y)

-- What the program means to show: pictures, and the commands of the frame that is being made.
structure Canvas (Command3D Command2D CommandUi : Type) where
  shown : Nat → Nat → UInt32
  base : Nat → Nat → UInt32
  commands3D : List Command3D
  commands2D : List Command2D
  commandsUi : List (UInt8 × CommandUi)

section Meaning
variable {Globals Command3D Command2D CommandUi : Type}

def Canvas.fragments (rasterizer : Rasterizer Globals Command3D Command2D CommandUi) (globals : Globals)
    (canvas : Canvas Command3D Command2D CommandUi) : List Fragment :=
  canvas.commands3D.flatMap (rasterizer.draw3D globals) ++ canvas.commands2D.flatMap (rasterizer.draw2D globals) ++
    (sortedUi canvas.commandsUi).flatMap fun command => rasterizer.drawUi globals command.2

def blank (shown : Nat → Nat → UInt32) : Canvas Command3D Command2D CommandUi := ⟨shown,fun _ _ => 0,[],[],[]⟩

def Canvas.perform (rasterizer : Rasterizer Globals Command3D Command2D CommandUi) (screen : Screen)
    (canvas : Canvas Command3D Command2D CommandUi) :
    Call Globals Command3D Command2D CommandUi → Option (Canvas Command3D Command2D CommandUi)
  | .queue3D command => some {canvas with commands3D := canvas.commands3D ++ [command]}
  | .queue2D command => some {canvas with commands2D := canvas.commands2D ++ [command]}
  | .queueUi z command => some {canvas with commandsUi := canvas.commandsUi ++ [(z,command)]}
  | .clear color =>
    if ∀ f ∈ everyPixel screen color,screen.Inside f.x f.y then
      some {canvas with base := fun x y => blendWith screen.format (canvas.base x y) color}
    else none
  | .setPixelImmediate x y color =>
    if screen.Inside x y then
      some {canvas with
        shown := fun x' y' => if x' = x ∧ y' = y then blendWith screen.format (canvas.shown x' y') color else canvas.shown x' y'
        base := fun x' y' => if x' = x ∧ y' = y then blendWith screen.format (canvas.base x' y') color else canvas.base x' y'}
    else none
  | .drawFrame globals =>
    if ∀ f ∈ canvas.fragments rasterizer globals,screen.Inside f.x f.y then
      some (blank fun x y => shaded screen.format (canvas.base x y) (survivors [] (fragmentsAt x y (canvas.fragments rasterizer globals))))
    else none

def Canvas.run (rasterizer : Rasterizer Globals Command3D Command2D CommandUi) (screen : Screen)
    (canvas : Canvas Command3D Command2D CommandUi) :
    List (Call Globals Command3D Command2D CommandUi) → Option (Canvas Command3D Command2D CommandUi)
  | [] => some canvas
  | call :: calls => (canvas.perform rasterizer screen call).bind fun canvas => canvas.run rasterizer screen calls

structure Shows (screen : Screen) (gfx : Gfx Command3D Command2D CommandUi) (canvas : Canvas Command3D Command2D CommandUi) : Prop where
  front : ∀ x y,screen.Inside x y → gfx.frontBuffer (screen.index x y) = canvas.shown x y
  back : ∀ x y,screen.Inside x y → gfx.currentFrame.backBuffer (screen.index x y) = canvas.base x y
  depth : ∀ x y,screen.Inside x y → gfx.currentFrame.depthBuffer (screen.index x y) = DEPTH_FAR
  commands3D : gfx.currentFrame.drawCommands3D = canvas.commands3D
  commands2D : gfx.currentFrame.drawCommands2D = canvas.commands2D
  commandsUi : gfx.currentFrame.drawCommandsUi = canvas.commandsUi
  other : ∀ slot < FRAME_OVERLAP,slot ≠ currentSlot gfx.frameNumber →
    (gfx.frames slot).drawCommands3D = [] ∧ (gfx.frames slot).drawCommands2D = [] ∧ (gfx.frames slot).drawCommandsUi = []

end Meaning

section Hidden

theorem Screen.index_inj {screen : Screen} (one : screen.Inside x y) (two : screen.Inside x' y')
    (same : screen.index x y = screen.index x' y') : x = x' ∧ y = y' := by
  have fits := screen.row_fits
  have first : screen.index x y / screen.stride = y ∧ screen.index x y % screen.stride = x := by
    have less : x < screen.stride := Nat.lt_of_lt_of_le one.1 fits
    rw [Screen.index,Nat.mul_comm]
    exact ⟨by rw [Nat.mul_add_div (by omega),Nat.div_eq_of_lt less,Nat.add_zero],by rw [Nat.mul_add_mod,Nat.mod_eq_of_lt less]⟩
  have second : screen.index x' y' / screen.stride = y' ∧ screen.index x' y' % screen.stride = x' := by
    have less : x' < screen.stride := Nat.lt_of_lt_of_le two.1 fits
    rw [Screen.index,Nat.mul_comm]
    exact ⟨by rw [Nat.mul_add_div (by omega),Nat.div_eq_of_lt less,Nat.add_zero],by rw [Nat.mul_add_mod,Nat.mod_eq_of_lt less]⟩
  rw [same] at first
  exact ⟨first.2.symm.trans second.2,first.1.symm.trans second.1⟩

-- The depth buffer at one pixel: the least depth that has been written.
def nearest (earlier : List Fragment) : Nat :=
  earlier.foldr (fun f bound => if f.solid then min f.depth bound else bound) DEPTH_FAR

theorem nearest_append (earlier : List Fragment) (f : Fragment) :
    nearest (earlier ++ [f]) = if f.solid then min f.depth (nearest earlier) else nearest earlier := by
  induction earlier with
  | nil => rfl
  | cons one earlier ih =>
      have unfolded : ∀ fs,nearest (one :: fs) = if one.solid then min one.depth (nearest fs) else nearest fs := fun _ => rfl
      rw [List.cons_append,unfolded,unfolded,ih]
      cases one.solid <;> cases f.solid <;> simp only [if_true,Bool.false_eq_true,if_false]
      exact Nat.min_left_comm _ _ _

theorem lt_nearest {earlier : List Fragment} {d : Nat} (near : d < DEPTH_FAR) :
    d < nearest earlier ↔ ∀ other ∈ earlier,other.solid = true → d < other.depth := by
  induction earlier with
  | nil => exact iff_of_true near (fun _ none => absurd none List.not_mem_nil)
  | cons one earlier ih =>
      have unfolded : nearest (one :: earlier) = if one.solid then min one.depth (nearest earlier) else nearest earlier := rfl
      rw [unfolded,List.forall_mem_cons]
      cases solid : one.solid with
      | false => simp [ih]
      | true => simp [ih,Nat.lt_min]

theorem survives_iff (f : Fragment) (earlier : List Fragment) :
    f.survives earlier = true ↔ ¬ (f.depth ≠ DEPTH_FAR ∧ nearest earlier ≤ f.depth) := by
  have fits := f.depth_fits
  rw [Fragment.survives,Bool.or_eq_true,decide_eq_true_eq,List.all_eq_true]
  by_cases far : f.depth = DEPTH_FAR
  · exact iff_of_true (.inl far) fun hidden => hidden.1 far
  · have near : f.depth < DEPTH_FAR := Nat.lt_of_le_of_ne fits far
    rw [or_iff_right far,not_and_or,not_le,lt_nearest near,not_not,or_iff_right far]
    refine forall₂_congr fun other _ => ?_
    cases other.solid <;> simp

theorem survivors_append (earlier one two : List Fragment) :
    survivors earlier (one ++ two) = survivors earlier one ++ survivors (earlier ++ one) two := by
  induction one generalizing earlier with
  | nil => rw [List.nil_append,survivors,List.nil_append,List.append_nil]
  | cons f one ih =>
      rw [List.cons_append,survivors,survivors,ih,List.append_assoc,List.singleton_append]
      split <;> rfl

theorem shaded_append (format : FramebufferFormat) (raw : UInt32) (one two : List Fragment) :
    shaded format raw (one ++ two) = shaded format (shaded format raw one) two := List.foldl_append

theorem fragmentsAt_append (x y : Nat) (one two : List Fragment) :
    fragmentsAt x y (one ++ two) = fragmentsAt x y one ++ fragmentsAt x y two := List.filter_append _ _

end Hidden

section Painting
variable {Globals Command3D Command2D CommandUi : Type} {screen : Screen} {frame after : FrameData Command3D Command2D CommandUi}

-- What a list of calls of set_pixel leaves at every pixel, from what has been drawn there before.
structure Painted (screen : Screen) (frame : FrameData Command3D Command2D CommandUi) (fs : List Fragment)
    (after : FrameData Command3D Command2D CommandUi) : Prop where
  pixels : ∀ x y earlier,screen.Inside x y → frame.depthBuffer (screen.index x y) = nearest earlier →
    after.backBuffer (screen.index x y) =
        shaded screen.format (frame.backBuffer (screen.index x y)) (survivors earlier (fragmentsAt x y fs)) ∧
      after.depthBuffer (screen.index x y) = nearest (earlier ++ fragmentsAt x y fs)
  commands3D : after.drawCommands3D = frame.drawCommands3D
  commands2D : after.drawCommands2D = frame.drawCommands2D
  commandsUi : after.drawCommandsUi = frame.drawCommandsUi

theorem Painted.append {middle : FrameData Command3D Command2D CommandUi} (one : Painted screen frame first middle)
    (two : Painted screen middle second after) : Painted screen frame (first ++ second) after where
  pixels := by
    intro x y earlier inside depth
    obtain ⟨back,depth⟩ := one.pixels x y earlier inside depth
    obtain ⟨shade,written⟩ := two.pixels x y _ inside depth
    rw [fragmentsAt_append,survivors_append,shaded_append,shade,back,written,List.append_assoc]
    exact ⟨rfl,rfl⟩
  commands3D := two.commands3D.trans one.commands3D
  commands2D := two.commands2D.trans one.commands2D
  commandsUi := two.commandsUi.trans one.commandsUi

theorem fragmentsAt_here (f : Fragment) : fragmentsAt f.x f.y [f] = [f] :=
  List.filter_cons_of_pos (by rw [Fragment.on,decide_eq_true_eq]; exact ⟨rfl,rfl⟩)

theorem fragmentsAt_elsewhere {f : Fragment} (apart : ¬ (f.x = x ∧ f.y = y)) : fragmentsAt x y [f] = [] :=
  List.filter_cons_of_neg (by rw [Fragment.on,decide_eq_true_eq]; exact apart)

theorem setPixel_painted {f : Fragment} (sets : setPixel screen frame f = some after) :
    screen.Inside f.x f.y ∧ Painted screen frame [f] after := by
  rw [setPixel] at sets
  split at sets
  case isFalse => cases sets
  case isTrue here =>
    refine ⟨here,?_⟩
    dsimp only at sets
    -- Other pixels are at other indices.
    have elsewhere : ∀ x y,screen.Inside x y → ¬ (f.x = x ∧ f.y = y) → screen.index x y ≠ screen.index f.x f.y := by
      intro x y inside apart same
      obtain ⟨rfl,rfl⟩ := Screen.index_inj inside here same
      exact apart ⟨rfl,rfl⟩
    split at sets
    case isTrue hidden =>
      cases sets
      refine ⟨fun x y earlier inside depth => ?_,rfl,rfl,rfl⟩
      by_cases same : f.x = x ∧ f.y = y
      · obtain ⟨rfl,rfl⟩ := same
        rw [depth] at hidden
        have lost : ¬ f.survives earlier = true := fun survives => (survives_iff f earlier).mp survives hidden
        rw [fragmentsAt_here,survivors,if_neg lost,nearest_append,depth]
        refine ⟨rfl,?_⟩
        split
        · exact (Nat.min_eq_right hidden.2).symm
        · rfl
      · rw [fragmentsAt_elsewhere same,List.append_nil]
        exact ⟨rfl,depth⟩
    case isFalse seen =>
      have solid : (f.depth ≠ DEPTH_FAR ∧ f.writeDepth = true) ↔ f.solid = true := by
        rw [Fragment.solid,Bool.and_eq_true,decide_eq_true_eq]
      have backs : after.backBuffer =
          Function.update frame.backBuffer (screen.index f.x f.y) (blendWith screen.format (frame.backBuffer (screen.index f.x f.y)) f.color) ∧
        after.depthBuffer = (if f.solid then Function.update frame.depthBuffer (screen.index f.x f.y) f.depth else frame.depthBuffer) ∧
          after.drawCommands3D = frame.drawCommands3D ∧ after.drawCommands2D = frame.drawCommands2D ∧
            after.drawCommandsUi = frame.drawCommandsUi := by
        split at sets
        case isTrue writes =>
          cases sets
          rw [if_pos (solid.mp writes)]
          exact ⟨rfl,rfl,rfl,rfl,rfl⟩
        case isFalse keeps =>
          cases sets
          rw [if_neg fun solids => keeps (solid.mpr solids)]
          exact ⟨rfl,rfl,rfl,rfl,rfl⟩
      obtain ⟨back,depths,commands3D,commands2D,commandsUi⟩ := backs
      refine ⟨fun x y earlier inside depth => ?_,commands3D,commands2D,commandsUi⟩
      by_cases same : f.x = x ∧ f.y = y
      · obtain ⟨rfl,rfl⟩ := same
        rw [depth] at seen
        have survives := (survives_iff f earlier).mpr seen
        rw [fragmentsAt_here,survivors,if_pos survives,nearest_append,back,depths,Function.update_self]
        refine ⟨rfl,?_⟩
        cases solids : f.solid with
        | false => exact depth
        | true =>
            rw [if_pos rfl,if_pos rfl,Function.update_self]
            have near := (solid.mpr solids).1
            have front : f.depth < nearest earlier := by
              by_contra behind
              exact seen ⟨near,not_lt.mp behind⟩
            exact (Nat.min_eq_left front.le).symm
      · rw [fragmentsAt_elsewhere same,List.append_nil,back,depths,Function.update_of_ne (elsewhere x y inside same)]
        refine ⟨rfl,?_⟩
        cases f.solid with
        | false => exact depth
        | true =>
            rw [if_pos rfl,Function.update_of_ne (elsewhere x y inside same)]
            exact depth

theorem setPixel_some (frame : FrameData Command3D Command2D CommandUi) {f : Fragment} (inside : screen.Inside f.x f.y) :
    ∃ after,setPixel screen frame f = some after := by
  rw [setPixel,if_pos inside]
  dsimp only
  split
  · exact ⟨_,rfl⟩
  · split <;> exact ⟨_,rfl⟩

theorem paint_painted {fs : List Fragment} (paints : paint screen frame fs = some after) :
    (∀ f ∈ fs,screen.Inside f.x f.y) ∧ Painted screen frame fs after := by
  induction fs generalizing frame with
  | nil =>
      cases paints
      refine ⟨fun _ none => absurd none List.not_mem_nil,fun x y earlier _ depth => ?_,rfl,rfl,rfl⟩
      rw [fragmentsAt,List.filter_nil,List.append_nil]
      exact ⟨rfl,depth⟩
  | cons f fs ih =>
      rw [paint] at paints
      obtain ⟨middle,sets,rest⟩ := Option.bind_eq_some_iff.mp paints
      obtain ⟨here,one⟩ := setPixel_painted sets
      obtain ⟨inside,two⟩ := ih rest
      exact ⟨List.forall_mem_cons.mpr ⟨here,inside⟩,one.append two⟩

theorem paint_some (frame : FrameData Command3D Command2D CommandUi) {fs : List Fragment} (inside : ∀ f ∈ fs,screen.Inside f.x f.y) :
    ∃ after,paint screen frame fs = some after := by
  induction fs generalizing frame with
  | nil => exact ⟨frame,rfl⟩
  | cons f fs ih =>
      obtain ⟨here,rest⟩ := List.forall_mem_cons.mp inside
      obtain ⟨middle,sets⟩ := setPixel_some frame here
      rw [paint,sets,Option.bind_some]
      exact ih middle rest

theorem paint_none {fs : List Fragment} (frame : FrameData Command3D Command2D CommandUi)
    (outside : ¬ ∀ f ∈ fs,screen.Inside f.x f.y) : paint screen frame fs = none := by
  cases paints : paint screen frame fs with
  | none => rfl
  | some after => exact absurd (paint_painted paints).1 outside

end Painting

section Whole
variable {Globals Command3D Command2D CommandUi : Type} {screen : Screen} {frame after : FrameData Command3D Command2D CommandUi}

theorem flatMap_only {α β : Type} {l : List α} {a : α} (once : l.Nodup) (present : a ∈ l) (g : α → List β)
    (others : ∀ b ∈ l,b ≠ a → g b = []) : l.flatMap g = g a := by
  induction l with
  | nil => cases present
  | cons b l ih =>
      obtain ⟨fresh,once⟩ := List.nodup_cons.mp once
      obtain ⟨here,rest⟩ := List.forall_mem_cons.mp others
      rw [List.flatMap_cons]
      by_cases same : b = a
      · subst same
        have none : l.flatMap g = [] := List.flatMap_eq_nil_iff.mpr fun c listed => rest c listed fun same => fresh (same ▸ listed)
        rw [none,List.append_nil]
      · rw [here same,List.nil_append]
        exact ih once ((List.mem_cons.mp present).resolve_left (Ne.symm same)) rest

-- Clearing the screen is one call for every pixel.
theorem everyPixel_at (color : Color) (onX : x < screen.width) (onY : y < screen.height) :
    fragmentsAt x y (everyPixel screen color) = [⟨x,y,color,DEPTH_FAR,true,Nat.le_refl _⟩] := by
  have row : ∀ y',fragmentsAt x y ((List.range screen.width).map fun x => ⟨x,y',color,DEPTH_FAR,true,Nat.le_refl _⟩) =
      if y' = y then [⟨x,y,color,DEPTH_FAR,true,Nat.le_refl _⟩] else [] := by
    intro y'
    rw [fragmentsAt,List.filter_map]
    by_cases same : y' = y
    · subst same
      have mine : (List.range screen.width).filter (Fragment.on x y' ∘ fun x => ⟨x,y',color,DEPTH_FAR,true,Nat.le_refl _⟩) =
          (List.range screen.width).filter (· == x) := by
        refine List.filter_congr fun x' _ => ?_
        simp [Fragment.on,Bool.beq_eq_decide_eq]
      rw [if_pos rfl,mine,List.filter_beq,List.count_eq_one_of_mem List.nodup_range (List.mem_range.mpr onX)]
      rfl
    · have none : (List.range screen.width).filter (Fragment.on x y ∘ fun x => ⟨x,y',color,DEPTH_FAR,true,Nat.le_refl _⟩) = [] :=
        List.filter_eq_nil_iff.mpr fun x' _ => by simp [Fragment.on,same]
      rw [if_neg same,none]
      rfl
  rw [fragmentsAt,everyPixel,List.filter_flatMap]
  refine (flatMap_only List.nodup_range (List.mem_range.mpr onY) _ fun y' _ other => ?_).trans ?_
  · exact (row y').trans (if_neg other)
  · exact (row y).trans (if_pos rfl)

theorem nearest_nil : nearest [] = DEPTH_FAR := rfl

theorem setCurrent_current (gfx : Gfx Command3D Command2D CommandUi) (frame : FrameData Command3D Command2D CommandUi) :
    (gfx.setCurrent frame).currentFrame = frame := Function.update_self _ _ _

theorem setCurrent_other (gfx : Gfx Command3D Command2D CommandUi) (frame : FrameData Command3D Command2D CommandUi)
    (other : slot ≠ currentSlot gfx.frameNumber) : (gfx.setCurrent frame).frames slot = gfx.frames slot :=
  Function.update_of_ne other _ _

theorem currentSlot_next (frameNumber : UInt8) : currentSlot (frameNumber + 1) ≠ currentSlot frameNumber ∧
    currentSlot (frameNumber + 1) < FRAME_OVERLAP ∧
      ∀ slot < FRAME_OVERLAP,slot ≠ currentSlot (frameNumber + 1) → slot = currentSlot frameNumber := by
  have next : (frameNumber + 1).toNat = (frameNumber.toNat + 1) % 256 := UInt8.toNat_add frameNumber 1
  simp only [currentSlot,FRAME_OVERLAP,next]
  refine ⟨by omega,by omega,fun slot small other => by omega⟩

theorem clear_outcome (frame : FrameData Command3D Command2D CommandUi) (color : Color)
    (far : ∀ x y,screen.Inside x y → frame.depthBuffer (screen.index x y) = DEPTH_FAR) :
    (¬ (∀ f ∈ everyPixel screen color,screen.Inside f.x f.y) ∧ clear screen frame color = none) ∨
      ((∀ f ∈ everyPixel screen color,screen.Inside f.x f.y) ∧ ∃ after,clear screen frame color = some after ∧
        (∀ x y,screen.Inside x y →
          after.backBuffer (screen.index x y) = blendWith screen.format (frame.backBuffer (screen.index x y)) color ∧
            after.depthBuffer (screen.index x y) = DEPTH_FAR) ∧
          after.drawCommands3D = frame.drawCommands3D ∧ after.drawCommands2D = frame.drawCommands2D ∧
            after.drawCommandsUi = frame.drawCommandsUi) := by
  by_cases inside : ∀ f ∈ everyPixel screen color,screen.Inside f.x f.y
  · obtain ⟨after,paints⟩ := paint_some frame inside
    have painted := (paint_painted paints).2
    refine .inr ⟨inside,{after with depthBuffer := filled screen DEPTH_FAR after.depthBuffer},?_,fun x y here => ?_,
      painted.commands3D,painted.commands2D,painted.commandsUi⟩
    · rw [clear,paints]
      rfl
    · have back := (painted.pixels x y [] here ((far x y here).trans nearest_nil.symm)).1
      rw [everyPixel_at color here.1 here.2.1] at back
      exact ⟨back,if_pos here.2.2⟩
  · refine .inl ⟨inside,?_⟩
    rw [clear,paint_none frame inside]
    rfl

variable {gfx : Gfx Command3D Command2D CommandUi} {canvas : Canvas Command3D Command2D CommandUi}
  {rasterizer : Rasterizer Globals Command3D Command2D CommandUi}

-- The three passes as one list of calls.
theorem passes_outcome (globals : Globals) (shows : Shows screen gfx canvas) :
    (¬ (∀ f ∈ canvas.fragments rasterizer globals,screen.Inside f.x f.y) ∧ drawFrame rasterizer screen globals gfx = none) ∨
      ((∀ f ∈ canvas.fragments rasterizer globals,screen.Inside f.x f.y) ∧
        ∃ frame,drawFrame rasterizer screen globals gfx = some (swapBuffers screen (gfx.setCurrent frame)) ∧
          (∀ x y,screen.Inside x y → frame.backBuffer (screen.index x y) =
            shaded screen.format (canvas.base x y) (survivors [] (fragmentsAt x y (canvas.fragments rasterizer globals)))) ∧
          frame.drawCommands3D = [] ∧ frame.drawCommands2D = [] ∧ frame.drawCommandsUi = []) := by
  have split3 : (∀ f ∈ canvas.fragments rasterizer globals,screen.Inside f.x f.y) ↔
      ((∀ f ∈ canvas.commands3D.flatMap (rasterizer.draw3D globals),screen.Inside f.x f.y) ∧
        ∀ f ∈ canvas.commands2D.flatMap (rasterizer.draw2D globals),screen.Inside f.x f.y) ∧
        ∀ f ∈ (sortedUi canvas.commandsUi).flatMap fun command => rasterizer.drawUi globals command.2,screen.Inside f.x f.y := by
    rw [Canvas.fragments,List.forall_mem_append,List.forall_mem_append]
  rw [drawFrame,shows.commands3D]
  by_cases first : ∀ f ∈ canvas.commands3D.flatMap (rasterizer.draw3D globals),screen.Inside f.x f.y
  case neg =>
    rw [paint_none _ first]
    exact .inl ⟨fun all => first (split3.mp all).1.1,rfl⟩
  obtain ⟨one,paints1⟩ := paint_some gfx.currentFrame first
  have painted1 := (paint_painted paints1).2
  have flat : canvas.commands2D = one.drawCommands2D := (painted1.commands2D.trans shows.commands2D).symm
  rw [flat] at split3
  rw [paints1,Option.bind_some]
  by_cases second : ∀ f ∈ one.drawCommands2D.flatMap (rasterizer.draw2D globals),screen.Inside f.x f.y
  case neg =>
    rw [paint_none _ second]
    exact .inl ⟨fun all => second (split3.mp all).1.2,rfl⟩
  obtain ⟨two,paints2⟩ := paint_some ({one with drawCommands3D := []} : FrameData Command3D Command2D CommandUi) second
  have painted2 := (paint_painted paints2).2
  have ui : canvas.commandsUi = two.drawCommandsUi := ((painted2.commandsUi.trans painted1.commandsUi).trans shows.commandsUi).symm
  rw [ui] at split3
  rw [paints2,Option.bind_some]
  by_cases third : ∀ f ∈ (sortedUi two.drawCommandsUi).flatMap fun command => rasterizer.drawUi globals command.2,screen.Inside f.x f.y
  case neg =>
    rw [paint_none _ third]
    exact .inl ⟨fun all => third (split3.mp all).2,rfl⟩
  obtain ⟨three,paints3⟩ := paint_some ({two with drawCommands2D := []} : FrameData Command3D Command2D CommandUi) third
  have painted3 := (paint_painted paints3).2
  rw [paints3]
  refine .inr ⟨split3.mpr ⟨⟨first,second⟩,third⟩,{three with drawCommandsUi := []},rfl,fun x y here => ?_,?_,?_,rfl⟩
  · obtain ⟨back1,depth1⟩ := painted1.pixels x y [] here ((shows.depth x y here).trans nearest_nil.symm)
    obtain ⟨back2,depth2⟩ := painted2.pixels x y _ here depth1
    obtain ⟨back3,_⟩ := painted3.pixels x y _ here depth2
    dsimp only at back2 back3 ⊢
    rw [back3,back2,back1,shows.back x y here,Canvas.fragments,flat,ui,fragmentsAt_append,fragmentsAt_append,survivors_append,
      survivors_append,shaded_append,shaded_append,List.nil_append,List.nil_append]
  · exact painted3.commands3D.trans painted2.commands3D
  · exact painted3.commands2D

theorem swapped_shows {frame : FrameData Command3D Command2D CommandUi} (shows : Shows screen gfx canvas)
    (pixels : ∀ x y,screen.Inside x y → frame.backBuffer (screen.index x y) = picture x y)
    (empty : frame.drawCommands3D = [] ∧ frame.drawCommands2D = [] ∧ frame.drawCommandsUi = []) :
    Shows screen (swapBuffers screen (gfx.setCurrent frame)) (blank picture) := by
  obtain ⟨apart,small,only⟩ := currentSlot_next gfx.frameNumber
  obtain ⟨none3D,none2D,noneUi⟩ := shows.other _ small apart
  have kept : (gfx.setCurrent frame).frames (currentSlot (gfx.frameNumber + 1)) = gfx.frames (currentSlot (gfx.frameNumber + 1)) :=
    setCurrent_other gfx frame apart
  refine ⟨fun x y here => ?_,fun x y here => ?_,fun x y here => ?_,?_,?_,?_,fun slot inRange other => ?_⟩
  · show (swapBuffers screen (gfx.setCurrent frame)).frontBuffer (screen.index x y) = picture x y
    rw [← pixels x y here,swapBuffers]
    dsimp only [Gfx.setCurrent]
    rw [if_pos here.2.2]
    exact congrArg (fun frame : FrameData Command3D Command2D CommandUi => frame.backBuffer (screen.index x y)) (setCurrent_current gfx frame)
  · rw [swapBuffers]
    dsimp only
    rw [setCurrent_current]
    exact if_pos here.2.2
  · rw [swapBuffers]
    dsimp only
    rw [setCurrent_current]
    exact if_pos here.2.2
  · rw [swapBuffers]
    dsimp only
    rw [setCurrent_current]
    exact (congrArg FrameData.drawCommands3D kept).trans none3D
  · rw [swapBuffers]
    dsimp only
    rw [setCurrent_current]
    exact (congrArg FrameData.drawCommands2D kept).trans none2D
  · rw [swapBuffers]
    dsimp only
    rw [setCurrent_current]
    exact (congrArg FrameData.drawCommandsUi kept).trans noneUi
  · have elsewhere : slot ≠ currentSlot (gfx.frameNumber + 1) := other
    have old := only slot inRange elsewhere
    have same : (swapBuffers screen (gfx.setCurrent frame)).frames slot = frame := by
      rw [swapBuffers]
      refine (Function.update_of_ne elsewhere _ _).trans ?_
      rw [old]
      exact setCurrent_current gfx frame
    rw [same]
    exact empty

theorem queued_shows (shows : Shows screen gfx canvas) {frame : FrameData Command3D Command2D CommandUi}
    {commands3D : List Command3D} {commands2D : List Command2D} {commandsUi : List (UInt8 × CommandUi)}
    (buffers : frame.backBuffer = gfx.currentFrame.backBuffer ∧ frame.depthBuffer = gfx.currentFrame.depthBuffer)
    (queues : frame.drawCommands3D = commands3D ∧ frame.drawCommands2D = commands2D ∧ frame.drawCommandsUi = commandsUi) :
    Shows screen (gfx.setCurrent frame) ⟨canvas.shown,canvas.base,commands3D,commands2D,commandsUi⟩ := by
  refine ⟨shows.front,fun x y here => ?_,fun x y here => ?_,?_,?_,?_,fun slot inRange other => ?_⟩
  · rw [setCurrent_current,buffers.1]
    exact shows.back x y here
  · rw [setCurrent_current,buffers.2]
    exact shows.depth x y here
  · rw [setCurrent_current]
    exact queues.1
  · rw [setCurrent_current]
    exact queues.2.1
  · rw [setCurrent_current]
    exact queues.2.2
  · rw [setCurrent_other gfx frame other]
    exact shows.other slot inRange other

-- Every call does on the buffers what it means, or stops where it must not be made.
theorem perform_shows (shows : Shows screen gfx canvas) (call : Call Globals Command3D Command2D CommandUi) :
    (gfx.perform rasterizer screen call = none ∧ canvas.perform rasterizer screen call = none) ∨
      ∃ gfx' canvas',gfx.perform rasterizer screen call = some gfx' ∧ canvas.perform rasterizer screen call = some canvas' ∧
        Shows screen gfx' canvas' := by
  cases call with
  | queue3D command =>
      refine .inr ⟨_,_,rfl,rfl,queued_shows shows ⟨rfl,rfl⟩ ⟨?_,shows.commands2D,shows.commandsUi⟩⟩
      rw [← shows.commands3D]
  | queue2D command =>
      refine .inr ⟨_,_,rfl,rfl,queued_shows shows ⟨rfl,rfl⟩ ⟨shows.commands3D,?_,shows.commandsUi⟩⟩
      rw [← shows.commands2D]
  | queueUi z command =>
      refine .inr ⟨_,_,rfl,rfl,queued_shows shows ⟨rfl,rfl⟩ ⟨shows.commands3D,shows.commands2D,?_⟩⟩
      rw [← shows.commandsUi]
  | clear color =>
      rw [Gfx.perform,Canvas.perform]
      rcases clear_outcome gfx.currentFrame color shows.depth with ⟨outside,stops⟩ | ⟨inside,frame,clears,pixels,same3D,same2D,sameUi⟩
      · rw [if_neg outside,stops]
        exact .inl ⟨rfl,rfl⟩
      · rw [if_pos inside,clears]
        refine .inr ⟨_,_,rfl,rfl,shows.front,fun x y here => ?_,fun x y here => ?_,?_,?_,?_,fun slot inRange other => ?_⟩
        · rw [setCurrent_current,(pixels x y here).1,shows.back x y here]
        · rw [setCurrent_current,(pixels x y here).2]
        · rw [setCurrent_current,same3D]
          exact shows.commands3D
        · rw [setCurrent_current,same2D]
          exact shows.commands2D
        · rw [setCurrent_current,sameUi]
          exact shows.commandsUi
        · rw [setCurrent_other gfx frame other]
          exact shows.other slot inRange other
  | setPixelImmediate x y color =>
      rw [Gfx.perform,Canvas.perform]
      by_cases inside : screen.Inside x y
      · rw [if_pos inside,if_pos inside]
        have blended : ∀ (buffer : Nat → UInt32) (picture : Nat → Nat → UInt32),
            (∀ x' y',screen.Inside x' y' → buffer (screen.index x' y') = picture x' y') → ∀ x' y',screen.Inside x' y' →
              Function.update buffer (screen.index x y) (blendWith screen.format (buffer (screen.index x y)) color) (screen.index x' y') =
                if x' = x ∧ y' = y then blendWith screen.format (picture x' y') color else picture x' y' := by
          intro buffer picture same x' y' here
          by_cases mine : x' = x ∧ y' = y
          · obtain ⟨rfl,rfl⟩ := mine
            rw [if_pos ⟨rfl,rfl⟩,Function.update_self,same x' y' here]
          · rw [if_neg mine,Function.update_of_ne (fun equal => mine (Screen.index_inj here inside equal)),same x' y' here]
        refine .inr ⟨_,_,rfl,rfl,blended _ _ shows.front,fun x' y' here => ?_,fun x' y' here => ?_,?_,?_,?_,fun slot inRange other => ?_⟩
        · exact (congrFun (congrArg FrameData.backBuffer (setCurrent_current gfx _)) _).trans (blended _ _ shows.back x' y' here)
        · exact (congrFun (congrArg FrameData.depthBuffer (setCurrent_current gfx _)) _).trans (shows.depth x' y' here)
        · exact (congrArg FrameData.drawCommands3D (setCurrent_current gfx _)).trans shows.commands3D
        · exact (congrArg FrameData.drawCommands2D (setCurrent_current gfx _)).trans shows.commands2D
        · exact (congrArg FrameData.drawCommandsUi (setCurrent_current gfx _)).trans shows.commandsUi
        · have same := setCurrent_other gfx {gfx.currentFrame with
              backBuffer := Function.update gfx.currentFrame.backBuffer (screen.index x y)
                (blendWith screen.format (gfx.currentFrame.backBuffer (screen.index x y)) color)} other
          dsimp only
          rw [same]
          exact shows.other slot inRange other
      · rw [if_neg inside,if_neg inside]
        exact .inl ⟨rfl,rfl⟩
  | drawFrame globals =>
      rw [Gfx.perform,Canvas.perform]
      rcases passes_outcome globals shows with ⟨outside,stops⟩ | ⟨inside,frame,draws,pixels,empty⟩
      · rw [if_neg outside,stops]
        exact .inl ⟨rfl,rfl⟩
      · rw [if_pos inside,draws]
        exact .inr ⟨_,_,rfl,rfl,swapped_shows shows pixels empty⟩

theorem initialized_shows (screen : Screen) (front : Nat → UInt32) (frames : Nat → FrameData Command3D Command2D CommandUi) :
    Shows screen (initialized screen front frames) (blank fun _ _ => 0) where
  front := fun _ _ here => if_pos here.2.2
  back := fun _ _ here => if_pos here.2.2
  depth := fun _ _ here => if_pos here.2.2
  commands3D := rfl
  commands2D := rfl
  commandsUi := rfl
  other := fun _ _ _ => ⟨rfl,rfl,rfl⟩

theorem run_shows (shows : Shows screen gfx canvas) (calls : List (Call Globals Command3D Command2D CommandUi)) :
    (gfx.run rasterizer screen calls = none ∧ canvas.run rasterizer screen calls = none) ∨
      ∃ gfx' canvas',gfx.run rasterizer screen calls = some gfx' ∧ canvas.run rasterizer screen calls = some canvas' ∧
        Shows screen gfx' canvas' := by
  induction calls generalizing gfx canvas with
  | nil => exact .inr ⟨gfx,canvas,rfl,rfl,shows⟩
  | cons call calls ih =>
      rw [Gfx.run,Canvas.run]
      rcases perform_shows shows call with ⟨stops,stopped⟩ | ⟨gfx',canvas',moves,moved,shows⟩
      · rw [stops,stopped]
        exact .inl ⟨rfl,rfl⟩
      · rw [moves,moved]
        exact ih shows

end Whole

-- Two buffers in turns, the frame number that wraps, the depth test against a buffer and the
-- queues: whatever is drawn and queued, frame after frame, the screen shows of a frame what its
-- own commands mean, and nothing of the frames before it. A run stops where a pixel would be
-- drawn outside, and nowhere else.
theorem frames_shown {Globals Command3D Command2D CommandUi : Type} (rasterizer : Rasterizer Globals Command3D Command2D CommandUi)
    (screen : Screen) (front : Nat → UInt32) (frames : Nat → FrameData Command3D Command2D CommandUi)
    (calls : List (Call Globals Command3D Command2D CommandUi)) :
    ((initialized screen front frames).run rasterizer screen calls = none ∧
        (blank fun _ _ => 0 : Canvas Command3D Command2D CommandUi).run rasterizer screen calls = none) ∨
      ∃ gfx canvas,(initialized screen front frames).run rasterizer screen calls = some gfx ∧
        (blank fun _ _ => 0 : Canvas Command3D Command2D CommandUi).run rasterizer screen calls = some canvas ∧
          ∀ x y,screen.Inside x y → gfx.frontBuffer (screen.index x y) = canvas.shown x y := by
  rcases run_shows (initialized_shows screen front frames) calls with stops | ⟨gfx,canvas,runs,meant,shows⟩
  · exact .inl stops
  · exact .inr ⟨gfx,canvas,runs,meant,shows.front⟩

end FramePipeline
