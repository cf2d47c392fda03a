import Gameos.FramePipeline

-- What the depth test makes of the order in which a frame is drawn.
namespace FramePipeline

section Covering
variable {earlier first later : List Fragment} {n : Fragment}

-- An opaque fragment that is in front of what is drawn before it, and behind nothing solid that
-- is drawn after it.
theorem covered_survivors (among : n ∈ earlier) (solid : n.solid = true)
    (behind : ∀ f ∈ earlier ++ later,f.solid = true → n.depth ≤ f.depth) :
    survivors earlier later = later.filter fun f => decide (f.depth = DEPTH_FAR ∨ f.depth < n.depth) := by
  induction later generalizing earlier with
  | nil => rfl
  | cons f later ih =>
      have exact : f.survives earlier = true ↔ f.depth = DEPTH_FAR ∨ f.depth < n.depth := by
        rw [Fragment.survives,Bool.or_eq_true,decide_eq_true_eq,List.all_eq_true]
        refine or_congr_right ⟨fun clear => ?_,fun less other listed => ?_⟩
        · have here := clear n among
          rw [solid] at here
          simpa using here
        · cases solids : other.solid with
          | false => rfl
          | true =>
              have far := behind other (List.mem_append_left _ listed) solids
              rw [Bool.not_true,Bool.false_or,decide_eq_true_eq]
              omega
      have rest := ih (List.mem_append_left [f] among) fun other listed => behind other (by
        rw [List.append_assoc,List.singleton_append] at listed
        exact listed)
      rw [survivors,rest,List.filter_cons]
      by_cases survives : f.survives earlier = true
      · rw [if_pos survives,if_pos (decide_eq_true (exact.mp survives))]
      · rw [if_neg survives,if_neg (fun near => survives (exact.mpr (of_decide_eq_true near)))]

-- The nearest opaque fragment hides what was drawn before it. Of what is drawn after it, what is
-- in front of it covers it, and what has no depth.
theorem nearest_covers (format : FramebufferFormat) (raw : UInt32) (full : n.color.a = 255) (solid : n.solid = true)
    (front : ∀ f ∈ earlier ++ first,f.solid = true → n.depth < f.depth) (behind : ∀ f ∈ later,f.solid = true → n.depth ≤ f.depth) :
    shaded format raw (survivors earlier (first ++ n :: later)) =
      shaded format (format.pack n.color.r n.color.g n.color.b 0xFF)
        (later.filter fun f => decide (f.depth = DEPTH_FAR ∨ f.depth < n.depth)) := by
  have survives : n.survives (earlier ++ first) = true := by
    rw [Fragment.survives,Bool.or_eq_true,List.all_eq_true]
    refine .inr fun other listed => ?_
    cases solids : other.solid with
    | false => rfl
    | true => exact decide_eq_true (front other listed solids)
  have rest : survivors (earlier ++ first ++ [n]) later = later.filter fun f => decide (f.depth = DEPTH_FAR ∨ f.depth < n.depth) := by
    refine covered_survivors (List.mem_append_right _ List.mem_cons_self) solid fun f listed solids => ?_
    rcases List.mem_append.mp listed with before | after
    · rcases List.mem_append.mp before with old | mine
      · exact (front f old solids).le
      · rw [List.mem_singleton.mp mine]
    · exact behind f after solids
  have paints : ∀ raw,blendWith format raw n.color = format.pack n.color.r n.color.g n.color.b 0xFF := by
    intro raw
    rw [blendWith,if_neg (by rw [full]; decide),if_pos full]
  rw [survivors_append,survivors,if_pos survives,rest,shaded_append,← List.singleton_append,shaded_append]
  exact congrArg (shaded format · _) (paints _)

end Covering

-- Opaque fragments that write their depths, no two of them the same.
structure Opaque (fs : List Fragment) : Prop where
  solid : ∀ f ∈ fs,f.color.a = 255 ∧ f.solid = true
  distinct : fs.Pairwise fun f g => f.depth ≠ g.depth

section Orders
variable {fs gs earlier : List Fragment} {n : Fragment}

theorem Opaque.perm (opaques : Opaque fs) (perm : fs.Perm gs) : Opaque gs where
  solid := fun f listed => opaques.solid f (perm.mem_iff.mpr listed)
  distinct := (perm.pairwise_iff fun different => Ne.symm different).mp opaques.distinct

theorem exists_nearest (some_ : fs ≠ []) : ∃ n ∈ fs,∀ f ∈ fs,n.depth ≤ f.depth := by
  induction fs with
  | nil => exact absurd rfl some_
  | cons f fs ih =>
      by_cases none : fs = []
      · subst none
        exact ⟨f,List.mem_cons_self,fun g listed => by rw [List.mem_singleton.mp listed]⟩
      · obtain ⟨n,among,least⟩ := ih none
        by_cases nearer : f.depth ≤ n.depth
        · exact ⟨f,List.mem_cons_self,List.forall_mem_cons.mpr ⟨Nat.le_refl _,fun g listed => Nat.le_trans nearer (least g listed)⟩⟩
        · exact ⟨n,List.mem_cons_of_mem _ among,List.forall_mem_cons.mpr ⟨by omega,least⟩⟩

-- What is left of them is the nearest, if what was drawn before does not hide it.
theorem Opaque.shaded_nearest (opaques : Opaque fs) (among : n ∈ fs) (least : ∀ f ∈ fs,n.depth ≤ f.depth) (format : FramebufferFormat)
    (raw : UInt32) : shaded format raw (survivors earlier fs) =
      if n.survives earlier then format.pack n.color.r n.color.g n.color.b 0xFF else raw := by
  obtain ⟨first,later,rfl⟩ := List.append_of_mem among
  obtain ⟨full,solid⟩ := opaques.solid n among
  have near : n.depth ≠ DEPTH_FAR := by
    rw [Fragment.solid,Bool.and_eq_true,decide_eq_true_eq] at solid
    exact solid.1
  obtain ⟨_,later_distinct,apart⟩ := List.pairwise_append.mp opaques.distinct
  by_cases survives : n.survives earlier = true
  · have front : ∀ f ∈ earlier ++ first,f.solid = true → n.depth < f.depth := by
      intro f listed solids
      rcases List.mem_append.mp listed with old | new
      · rw [Fragment.survives,Bool.or_eq_true,decide_eq_true_eq,List.all_eq_true] at survives
        have clear := survives.resolve_left near f old
        rw [solids] at clear
        simpa using clear
      · have different := apart f new n List.mem_cons_self
        have below := least f (List.mem_append_left _ new)
        omega
    have behind : ∀ f ∈ later,n.depth < f.depth := by
      intro f listed
      have different := (List.pairwise_cons.mp later_distinct).1 f listed
      have below := least f (List.mem_append_right _ (List.mem_cons_of_mem _ listed))
      omega
    have none : (later.filter fun f => decide (f.depth = DEPTH_FAR ∨ f.depth < n.depth)) = [] := by
      refine List.filter_eq_nil_iff.mpr fun f listed => ?_
      have below := behind f listed
      have solids := (opaques.solid f (List.mem_append_right _ (List.mem_cons_of_mem _ listed))).2
      rw [Fragment.solid,Bool.and_eq_true,decide_eq_true_eq] at solids
      rw [decide_eq_true_eq,not_or]
      exact ⟨solids.1,by omega⟩
    rw [if_pos survives,nearest_covers format raw full solid front fun f listed _ => (behind f listed).le,none]
    rfl
  · -- What hides the nearest hides all of them.
    have hidden : ∀ gs earlier',(∀ f ∈ gs,n.depth ≤ f.depth ∧ f.solid = true) → (∀ other ∈ earlier,other ∈ earlier') → survivors earlier' gs = [] := by
      intro gs
      induction gs with
      | nil => exact fun _ _ _ => rfl
      | cons f gs ih =>
          intro earlier' all more
          obtain ⟨⟨below,solids⟩,all⟩ := List.forall_mem_cons.mp all
          have lost : ¬ f.survives earlier' = true := by
            intro clear
            rw [Fragment.survives,Bool.or_eq_true,decide_eq_true_eq,List.all_eq_true] at clear
            rw [Fragment.solid,Bool.and_eq_true,decide_eq_true_eq] at solids
            refine survives ?_
            rw [Fragment.survives,Bool.or_eq_true,List.all_eq_true]
            refine .inr fun other listed => ?_
            have here := clear.resolve_left solids.1 other (more other listed)
            rw [Bool.or_eq_true,decide_eq_true_eq] at here ⊢
            exact here.imp_right fun less => by omega
          rw [survivors,if_neg lost]
          exact ih (earlier' ++ [f]) all fun other listed => List.mem_append_left _ (more other listed)
    have none := hidden (first ++ n :: later) earlier (fun f listed => ⟨least f listed,(opaques.solid f listed).2⟩) fun _ listed => listed
    rw [if_neg survives,none]
    rfl

theorem survives_perm {one two : List Fragment} (perm : one.Perm two) (f : Fragment) : f.survives one = f.survives two := by
  rw [Fragment.survives,Fragment.survives,perm.all_eq]

theorem survivors_perm {one two : List Fragment} (perm : one.Perm two) (fs : List Fragment) : survivors one fs = survivors two fs := by
  induction fs generalizing one two with
  | nil => rfl
  | cons f fs ih => rw [survivors,survivors,survives_perm perm,ih (perm.append_right [f])]

theorem Opaque.shaded_perm (opaques : Opaque fs) (perm : fs.Perm gs) (format : FramebufferFormat) (raw : UInt32) (later : List Fragment) :
    shaded format raw (survivors earlier (fs ++ later)) = shaded format raw (survivors earlier (gs ++ later)) := by
  rw [survivors_append,survivors_append,shaded_append,shaded_append,survivors_perm (perm.append_left earlier)]
  refine congrArg (shaded format · _) ?_
  by_cases none : fs = []
  · subst none
    rw [List.Perm.eq_nil perm.symm]
  · obtain ⟨n,among,least⟩ := exists_nearest none
    rw [opaques.shaded_nearest among least,
      (opaques.perm perm).shaded_nearest (perm.mem_iff.mp among) fun f listed => least f (perm.mem_iff.mpr listed)]

end Orders

section Frames
variable {Globals Command3D Command2D CommandUi : Type} {rasterizer : Rasterizer Globals Command3D Command2D CommandUi} {screen : Screen}

-- Canvases that differ in the order of some 3D commands.
structure Reordered (first second : List Command3D) (one two : Canvas Command3D Command2D CommandUi) : Prop where
  shown : one.shown = two.shown
  base : one.base = two.base
  commands3D : ∃ before after,one.commands3D = before ++ first ++ after ∧ two.commands3D = before ++ second ++ after
  commands2D : one.commands2D = two.commands2D
  commandsUi : one.commandsUi = two.commandsUi

def NoFrame (call : Call Globals Command3D Command2D CommandUi) : Prop := ∀ globals,call ≠ .drawFrame globals

theorem Reordered.perform {first second : List Command3D} {one two : Canvas Command3D Command2D CommandUi}
    (reordered : Reordered first second one two) (call : Call Globals Command3D Command2D CommandUi) (noFrame : NoFrame call) :
    (one.perform rasterizer screen call = none ∧ two.perform rasterizer screen call = none) ∨
      ∃ one' two',one.perform rasterizer screen call = some one' ∧ two.perform rasterizer screen call = some two' ∧
        Reordered first second one' two' := by
  obtain ⟨shown,base,⟨before,after,left,right⟩,commands2D,commandsUi⟩ := reordered
  cases call with
  | queue3D command =>
      refine .inr ⟨_,_,rfl,rfl,shown,base,⟨before,after ++ [command],?_,?_⟩,commands2D,commandsUi⟩
      · rw [left,List.append_assoc]
      · rw [right,List.append_assoc]
  | queue2D command => exact .inr ⟨_,_,rfl,rfl,shown,base,⟨before,after,left,right⟩,congrArg (· ++ [command]) commands2D,commandsUi⟩
  | queueUi z command =>
      exact .inr ⟨_,_,rfl,rfl,shown,base,⟨before,after,left,right⟩,commands2D,congrArg (· ++ [(z,command)]) commandsUi⟩
  | clear color =>
      rw [Canvas.perform,Canvas.perform]
      split
      · exact .inr ⟨_,_,rfl,rfl,shown,by rw [base],⟨before,after,left,right⟩,commands2D,commandsUi⟩
      · exact .inl ⟨rfl,rfl⟩
  | setPixelImmediate x y color =>
      rw [Canvas.perform,Canvas.perform]
      split
      · exact .inr ⟨_,_,rfl,rfl,by rw [shown],by rw [base],⟨before,after,left,right⟩,commands2D,commandsUi⟩
      · exact .inl ⟨rfl,rfl⟩
  | drawFrame globals => exact absurd rfl (noFrame globals)

theorem Reordered.run {first second : List Command3D} {one two : Canvas Command3D Command2D CommandUi}
    (reordered : Reordered first second one two) (rest : List (Call Globals Command3D Command2D CommandUi))
    (noFrame : ∀ call ∈ rest,NoFrame call) :
    (one.run rasterizer screen rest = none ∧ two.run rasterizer screen rest = none) ∨
      ∃ one' two',one.run rasterizer screen rest = some one' ∧ two.run rasterizer screen rest = some two' ∧
        Reordered first second one' two' := by
  induction rest generalizing one two with
  | nil => exact .inr ⟨one,two,rfl,rfl,reordered⟩
  | cons call rest ih =>
      obtain ⟨here,noFrame⟩ := List.forall_mem_cons.mp noFrame
      rw [Canvas.run,Canvas.run]
      rcases reordered.perform call here with ⟨stops,stopped⟩ | ⟨one',two',moves,moved,reordered⟩
      · rw [stops,stopped]
        exact .inl ⟨rfl,rfl⟩
      · rw [moves,moved]
        exact ih reordered noFrame

theorem Reordered.drawn {first second : List Command3D} {one two : Canvas Command3D Command2D CommandUi}
    (reordered : Reordered first second one two) (perm : first.Perm second) (globals : Globals)
    (opaques : ∀ x y,Opaque (fragmentsAt x y (first.flatMap (rasterizer.draw3D globals)))) :
    one.perform rasterizer screen (.drawFrame globals) = two.perform rasterizer screen (.drawFrame globals) := by
  obtain ⟨shown,base,⟨before,after,left,right⟩,commands2D,commandsUi⟩ := reordered
  have swapped : (first.flatMap (rasterizer.draw3D globals)).Perm (second.flatMap (rasterizer.draw3D globals)) :=
    perm.flatMap_right _
  have fragments : ∃ head tail,one.fragments rasterizer globals = head ++ first.flatMap (rasterizer.draw3D globals) ++ tail ∧
      two.fragments rasterizer globals = head ++ second.flatMap (rasterizer.draw3D globals) ++ tail := by
    refine ⟨before.flatMap (rasterizer.draw3D globals),after.flatMap (rasterizer.draw3D globals) ++
      (one.commands2D.flatMap (rasterizer.draw2D globals) ++
        (sortedUi one.commandsUi).flatMap fun command => rasterizer.drawUi globals command.2),?_,?_⟩
    · rw [Canvas.fragments,left]
      simp only [List.flatMap_append,List.append_assoc]
    · rw [Canvas.fragments,right,commands2D,commandsUi]
      simp only [List.flatMap_append,List.append_assoc]
  obtain ⟨head,tail,lefts,rights⟩ := fragments
  have inside : (∀ f ∈ one.fragments rasterizer globals,screen.Inside f.x f.y) ↔ ∀ f ∈ two.fragments rasterizer globals,screen.Inside f.x f.y := by
    have all : (one.fragments rasterizer globals).Perm (two.fragments rasterizer globals) := by
      rw [lefts,rights]
      exact (swapped.append_left head).append_right tail
    exact ⟨fun inside f listed => inside f (all.mem_iff.mpr listed),fun inside f listed => inside f (all.mem_iff.mp listed)⟩
  have pictures : ∀ x y,shaded screen.format (one.base x y) (survivors [] (fragmentsAt x y (one.fragments rasterizer globals))) =
      shaded screen.format (two.base x y) (survivors [] (fragmentsAt x y (two.fragments rasterizer globals))) := by
    intro x y
    have here : ∀ raw,shaded screen.format raw (survivors (fragmentsAt x y head) (fragmentsAt x y (first.flatMap (rasterizer.draw3D globals)) ++
        fragmentsAt x y tail)) = shaded screen.format raw (survivors (fragmentsAt x y head)
          (fragmentsAt x y (second.flatMap (rasterizer.draw3D globals)) ++ fragmentsAt x y tail)) :=
      fun raw => (opaques x y).shaded_perm (swapped.filter _) screen.format raw _
    have from_head : ∀ fs,shaded screen.format (two.base x y) (survivors [] (fragmentsAt x y head ++ fs)) =
        shaded screen.format (shaded screen.format (two.base x y) (survivors [] (fragmentsAt x y head))) (survivors (fragmentsAt x y head) fs) := by
      intro fs
      rw [survivors_append,shaded_append,List.nil_append]
    rw [lefts,rights,base,fragmentsAt_append,fragmentsAt_append,fragmentsAt_append,fragmentsAt_append,List.append_assoc,List.append_assoc,
      from_head,from_head,here]
  rw [Canvas.perform,Canvas.perform]
  by_cases fits : ∀ f ∈ one.fragments rasterizer globals,screen.Inside f.x f.y
  · rw [if_pos fits,if_pos (inside.mp fits)]
    exact congrArg (fun picture => some (blank picture)) (funext fun x => funext fun y => pictures x y)
  · rw [if_neg fits,if_neg fun other => fits (inside.mpr other)]

theorem Canvas.run_append (canvas : Canvas Command3D Command2D CommandUi) (one two : List (Call Globals Command3D Command2D CommandUi)) :
    canvas.run rasterizer screen (one ++ two) = (canvas.run rasterizer screen one).bind fun middle => middle.run rasterizer screen two := by
  induction one generalizing canvas with
  | nil => rfl
  | cons call one ih =>
      rw [List.cons_append,Canvas.run,Canvas.run,Option.bind_assoc]
      exact congrArg _ (funext ih)

theorem Canvas.run_queue (canvas : Canvas Command3D Command2D CommandUi) (commands : List Command3D) :
    canvas.run rasterizer screen (commands.map (Call.queue3D : Command3D → Call Globals Command3D Command2D CommandUi)) =
      some {canvas with commands3D := canvas.commands3D ++ commands} := by
  induction commands generalizing canvas with
  | nil =>
      rw [List.append_nil]
      rfl
  | cons command commands ih =>
      rw [List.map_cons,Canvas.run,Canvas.perform,Option.bind_some,ih,List.append_assoc]
      rfl

-- What has happened before, the commands of some meshes, what else is drawn in their frame, and its end.
def frameWith (calls : List (Call Globals Command3D Command2D CommandUi)) (commands : List Command3D)
    (rest : List (Call Globals Command3D Command2D CommandUi)) (globals : Globals) : List (Call Globals Command3D Command2D CommandUi) :=
  calls ++ (commands.map .queue3D ++ (rest ++ [.drawFrame globals]))

theorem frameWith_perm (canvas : Canvas Command3D Command2D CommandUi) (calls rest : List (Call Globals Command3D Command2D CommandUi))
    {first second : List Command3D} (perm : first.Perm second) (globals : Globals) (noFrame : ∀ call ∈ rest,NoFrame call)
    (opaques : ∀ x y,Opaque (fragmentsAt x y (first.flatMap (rasterizer.draw3D globals)))) :
    canvas.run rasterizer screen (frameWith calls first rest globals) = canvas.run rasterizer screen (frameWith calls second rest globals) := by
  rw [frameWith,frameWith,Canvas.run_append,Canvas.run_append]
  refine congrArg _ (funext fun middle => ?_)
  rw [Canvas.run_append,Canvas.run_append,Canvas.run_queue,Canvas.run_queue,Option.bind_some,Option.bind_some,Canvas.run_append,Canvas.run_append]
  have reordered : Reordered first second {middle with commands3D := middle.commands3D ++ first}
      {middle with commands3D := middle.commands3D ++ second} :=
    ⟨rfl,rfl,⟨middle.commands3D,[],(List.append_nil _).symm,(List.append_nil _).symm⟩,rfl,rfl⟩
  rcases reordered.run rest noFrame with ⟨stops,stopped⟩ | ⟨one,two,runs,ran,reordered⟩
  · rw [stops,stopped]
  · rw [runs,ran,Option.bind_some,Option.bind_some,Canvas.run,Canvas.run,reordered.drawn perm globals opaques]

end Frames

theorem onePixel_row : 1 ≤ 1 := Nat.le_refl 1

-- One pixel, two meshes of one fragment each.
def onePixel : Screen := ⟨1,1,1,1,⟨16,8,0⟩,by decide,onePixel_row⟩
def nearRed : Fragment := ⟨0,0,⟨255,0,0,255⟩,5,true,by decide⟩
def farBlue : Fragment := ⟨0,0,⟨0,0,255,255⟩,9,true,by decide⟩
def single : Rasterizer Unit Fragment Fragment Fragment := ⟨fun _ f => [f],fun _ f => [f],fun _ f => [f]⟩
def noFrames : Nat → FrameData Fragment Fragment Fragment := fun _ => ⟨fun _ => 0,fun _ => 0,[],[],[]⟩

end FramePipeline
