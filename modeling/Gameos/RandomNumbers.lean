import Gameos.WordScrambles
import Mathlib.Data.Int.CardIntervalMod
import Mathlib.Data.Nat.Periodic
import Mathlib.Logic.Function.Iterate

-- gameos/random.hh: the generator, its seed, and numbers of a range.
namespace RandomNumbers
open WordScrambles

abbrev U64 := BitVec 64

structure Xoshiro256ppState where
  s0 : U64
  s1 : U64
  s2 : U64
  s3 : U64
deriving DecidableEq

def rol64 (x : U64) (k : Nat) : U64 := (x <<< k) ||| (x >>> (64 - k))

def xoshiro256pp (state : Xoshiro256ppState) : U64 × Xoshiro256ppState :=
  let result := rol64 (state.s0 + state.s3) 23 + state.s0
  let t := state.s1 <<< 17
  let s2 := state.s2 ^^^ state.s0
  let s3 := state.s3 ^^^ state.s1
  let s1 := state.s1 ^^^ s2
  let s0 := state.s0 ^^^ s3
  let s2 := s2 ^^^ t
  let s3 := rol64 s3 45
  (result,⟨s0,s1,s2,s3⟩)

def splitmix64 (state : U64) : U64 × U64 :=
  let state := state + 0x9E3779B97F4A7C15#64
  let z := state
  let z := (z ^^^ (z >>> 30)) * 0xBF58476D1CE4E5B9#64
  let z := (z ^^^ (z >>> 27)) * 0x94D049BB133111EB#64
  (z ^^^ (z >>> 31),state)

-- initialize(), from the seed that hardware_seed answers with.
def initializeState (seed : U64) : Xoshiro256ppState :=
  let (s0,seed) := splitmix64 seed
  let (s1,seed) := splitmix64 seed
  let (s2,seed) := splitmix64 seed
  let (s3,_) := splitmix64 seed
  ⟨s0,s1,s2,s3⟩

def threshold (range : U64) : U64 := -range % range

-- The loop of generate(from, to), with the turns it gets.
def draw (range : U64) : Nat → Xoshiro256ppState → Option (U64 × Xoshiro256ppState)
  | 0,_ => none
  | turns + 1,state =>
    let (random,state) := xoshiro256pp state
    if random < threshold range then draw range turns state else some (random,state)

-- `none` is the failed assertion from < to, or a loop that needs more turns.
def generate (turns : Nat) (first limit : U64) (state : Xoshiro256ppState) : Option (U64 × Xoshiro256ppState) :=
  if first < limit then
    let range := limit - first
    (draw range turns state).map fun (random,state) => (first + random % range,state)
  else none

-- Counting the residues of whole periods.
theorem residues_even (a r q k : Nat) (positive : 0 < r) :
    ((Finset.Ico a (a + r * q)).filter fun x => x % r = k % r).card = q := by
  have periodic : Function.Periodic (fun x => x % r = k % r) (r * q) := by
    intro x
    simp [Nat.add_mul_mod_self_left]
  rw [Nat.filter_Ico_card_eq_of_periodic _ _ _ periodic]
  have counted := Nat.count_modEq_card (r * q) positive k
  rw [Nat.mul_mod_right,if_neg (Nat.not_lt_zero _),Nat.mul_div_cancel_left _ positive] at counted
  exact counted

theorem threshold_eq {range : U64} (positive : 0 < range.toNat) :
    (threshold range).toNat = 18446744073709551616 % range.toNat := by
  have small := range.isLt
  rw [threshold,BitVec.toNat_umod,BitVec.toNat_neg,Nat.mod_eq_of_lt (a := 2 ^ 64 - range.toNat) (by omega)]
  have whole : 18446744073709551616 = 2 ^ 64 - range.toNat + range.toNat := by omega
  rw [whole,Nat.add_mod_right]

-- The generator outputs that are not rejected.
def accepted (range : U64) : Finset Nat :=
  (Finset.range 18446744073709551616).filter fun random => ¬ BitVec.ofNat 64 random < threshold range

-- How many of them give a value.
def share (first limit value : U64) : Nat :=
  ((accepted (limit - first)).filter fun random => first + BitVec.ofNat 64 random % (limit - first) = value).card

-- Results stay in the range, without overflow, and the accepted outputs are
-- spread evenly over it.
structure Unbiased (first limit : U64) : Prop where
  inside : ∀ turns state value after,generate turns first limit state = some (value,after) → first ≤ value ∧ value < limit
  exact : ∀ random : U64,(first + random % (limit - first)).toNat = first.toNat + random.toNat % (limit.toNat - first.toNat)
  even : ∃ count,∀ value,first ≤ value → value < limit → share first limit value = count
  half : 9223372036854775808 ≤ (accepted (limit - first)).card

theorem draw_accepted (drawn : draw range turns state = some (random,after)) : ¬ random < threshold range := by
  induction turns generalizing state with
  | zero => cases drawn
  | succ turns ih =>
      rw [draw] at drawn
      by_cases rejected : (xoshiro256pp state).1 < threshold range
      · exact ih (by simpa [rejected] using drawn)
      · have same : (xoshiro256pp state).1 = random := by
          have := Option.some.inj ((if_neg rejected).symm.trans drawn)
          exact congrArg Prod.fst this
        rwa [← same]

theorem difference {first limit : U64} (ordered : first < limit) :
    (limit - first).toNat = limit.toNat - first.toNat := by
  have less : first.toNat < limit.toNat := ordered
  have small := limit.isLt
  rw [BitVec.toNat_sub]
  omega

theorem result_exact {first limit : U64} (ordered : first < limit) (random : U64) :
    (first + random % (limit - first)).toNat = first.toNat + random.toNat % (limit.toNat - first.toNat) := by
  have less : first.toNat < limit.toNat := ordered
  have small := limit.isLt
  have below := Nat.mod_lt random.toNat (show 0 < limit.toNat - first.toNat by omega)
  rw [BitVec.toNat_add,BitVec.toNat_umod,difference ordered]
  omega

theorem result_inside {first limit : U64} (ordered : first < limit) (random : U64) :
    first ≤ first + random % (limit - first) ∧ first + random % (limit - first) < limit := by
  have less : first.toNat < limit.toNat := ordered
  have exact := result_exact ordered random
  have below := Nat.mod_lt random.toNat (show 0 < limit.toNat - first.toNat by omega)
  constructor
  · show first.toNat ≤ (first + random % (limit - first)).toNat
    omega
  · show (first + random % (limit - first)).toNat < limit.toNat
    omega

-- What is not rejected is a whole number of periods of the range.
theorem accepted_eq {range : U64} (positive : 0 < range.toNat) :
    accepted range = Finset.Ico (18446744073709551616 % range.toNat)
      (18446744073709551616 % range.toNat + range.toNat * (18446744073709551616 / range.toNat)) := by
  rw [Nat.mod_add_div]
  ext random
  simp only [accepted,Finset.mem_filter,Finset.mem_range,Finset.mem_Ico]
  constructor
  · rintro ⟨small,kept⟩
    refine ⟨?_,small⟩
    have kept : ¬ (BitVec.ofNat 64 random).toNat < (threshold range).toNat := kept
    rw [threshold_eq positive,BitVec.toNat_ofNat,Nat.mod_eq_of_lt small] at kept
    exact Nat.le_of_not_lt kept
  · rintro ⟨above,small⟩
    refine ⟨small,fun rejected => ?_⟩
    have rejected : (BitVec.ofNat 64 random).toNat < (threshold range).toNat := rejected
    rw [threshold_eq positive,BitVec.toNat_ofNat,Nat.mod_eq_of_lt small] at rejected
    omega

theorem share_eq {first limit value : U64} (ordered : first < limit) (above : first ≤ value) (below : value < limit) :
    share first limit value = 18446744073709551616 / (limit.toNat - first.toNat) := by
  have less : first.toNat < limit.toNat := ordered
  have above : first.toNat ≤ value.toNat := above
  have below : value.toNat < limit.toNat := below
  have range := difference ordered
  have positive : 0 < (limit - first).toNat := by omega
  have counted := residues_even (18446744073709551616 % (limit - first).toNat) (limit - first).toNat
    (18446744073709551616 / (limit - first).toNat) (value.toNat - first.toNat) positive
  rw [← accepted_eq positive,range] at counted
  rw [← counted,share]
  refine congrArg Finset.card (Finset.filter_congr fun random member => ?_)
  have small : random < 18446744073709551616 := Finset.mem_range.mp (Finset.mem_filter.mp member).1
  have exact := result_exact ordered (BitVec.ofNat 64 random)
  rw [BitVec.toNat_ofNat,Nat.mod_eq_of_lt small] at exact
  rw [Nat.mod_eq_of_lt (show value.toNat - first.toNat < limit.toNat - first.toNat by omega),← BitVec.toNat_inj,exact]
  omega

theorem accepted_half {range : U64} (positive : 0 < range.toNat) : 9223372036854775808 ≤ (accepted range).card := by
  have small := range.isLt
  rw [accepted_eq positive,Nat.card_Ico,Nat.add_sub_cancel_left]
  have whole := Nat.mod_add_div 18446744073709551616 range.toNat
  by_cases half : range.toNat ≤ 9223372036854775808
  · have := Nat.mod_lt 18446744073709551616 positive
    omega
  · have once : 18446744073709551616 % range.toNat = 18446744073709551616 - range.toNat := by
      rw [Nat.mod_eq_sub_mod (by omega),Nat.mod_eq_of_lt (by omega)]
    omega

def zeroState : Xoshiro256ppState := ⟨0#64,0#64,0#64,0#64⟩

def nextState (state : Xoshiro256ppState) : Xoshiro256ppState := (xoshiro256pp state).2

-- The state before: the rotation and the shift are undone, then the xors.
def previousState (state : Xoshiro256ppState) : Xoshiro256ppState :=
  let s3 := rol64 state.s3 19
  let s0 := state.s0 ^^^ s3
  let s1 := unshift 17 (state.s1 ^^^ state.s2)
  let s2 := state.s1 ^^^ s1
  ⟨s0,s1,s2 ^^^ s0,s3 ^^^ s1⟩

theorem xor_twice (x y : U64) : x ^^^ y ^^^ y = x := by rw [BitVec.xor_assoc,BitVec.xor_self,BitVec.xor_zero]

theorem xor_between (x y : U64) : x ^^^ (x ^^^ y) = y := by rw [← BitVec.xor_assoc,BitVec.xor_self,BitVec.zero_xor]

theorem rol64_back (x : U64) : rol64 (rol64 x 45) 19 = x := rotate_back 45 x (by decide)

theorem rol64_forth (x : U64) : rol64 (rol64 x 19) 45 = x := rotate_back 19 x (by decide)

theorem unshift_back (x : U64) : unshift 17 (x ^^^ (x <<< 17)) = x :=
  xor_shiftLeft_injective (k := 17) (by decide) (unshift_step 17 _ (by decide))

theorem previous_next (state : Xoshiro256ppState) : previousState (nextState state) = state := by
  obtain ⟨s0,s1,s2,s3⟩ := state
  have first : s0 ^^^ (s3 ^^^ s1) ^^^ (s3 ^^^ s1) = s0 := xor_twice _ _
  have both : s1 ^^^ (s2 ^^^ s0) ^^^ (s2 ^^^ s0 ^^^ (s1 <<< 17)) = s1 ^^^ (s1 <<< 17) := by
    rw [← BitVec.xor_assoc,xor_twice]
  have second : s1 ^^^ (s2 ^^^ s0) ^^^ s1 = s2 ^^^ s0 := by rw [BitVec.xor_comm s1,xor_twice]
  simp only [nextState,xoshiro256pp,previousState,rol64_back,first,both,unshift_back,second,xor_twice]

theorem next_previous (state : Xoshiro256ppState) : nextState (previousState state) = state := by
  obtain ⟨s0,s1,s2,s3⟩ := state
  have shifted := unshift_step (w := 64) 17 (s1 ^^^ s2) (by decide)
  simp only [nextState,xoshiro256pp,previousState,xor_twice,rol64_forth]
  generalize unshift 17 (s1 ^^^ s2) = x at shifted ⊢
  have back : x ^^^ (s1 ^^^ x) = s1 := by rw [BitVec.xor_comm s1,xor_between]
  have second : s1 ^^^ x ^^^ (x <<< 17) = s2 := by rw [BitVec.xor_assoc,shifted,xor_between]
  rw [back,second]

theorem next_bijective : Function.Bijective nextState :=
  Function.bijective_iff_has_inverse.mpr ⟨previousState,previous_next,next_previous⟩

theorem next_zero : nextState zeroState = zeroState := by decide

theorem next_zero_iff (state : Xoshiro256ppState) : nextState state = zeroState ↔ state = zeroState :=
  ⟨fun none => next_bijective.1 (none.trans next_zero.symm),fun zero => by rw [zero,next_zero]⟩

-- splitmix64 answers with zero from one state only.
theorem splitmix64_zero (none : (splitmix64 state).1 = 0#64) : state + 0x9E3779B97F4A7C15#64 = 0#64 := by
  have last := zero_of_xor_shiftRight (k := 31) (by decide) none
  have second := zero_of_product (show _ * 0x319642b2d24d8ec3#64 = _ by decide) last
  have middle := zero_of_xor_shiftRight (k := 27) (by decide) second
  have first := zero_of_product (show _ * 0x96de1b173f119089#64 = _ by decide) middle
  exact zero_of_xor_shiftRight (k := 30) (by decide) first

theorem initialize_nonzero (seed : U64) : initializeState seed ≠ zeroState := by
  intro zero
  have one : seed + 0x9E3779B97F4A7C15#64 = 0#64 := splitmix64_zero (congrArg Xoshiro256ppState.s0 zero)
  have two : seed + 0x9E3779B97F4A7C15#64 + 0x9E3779B97F4A7C15#64 = 0#64 := splitmix64_zero (congrArg Xoshiro256ppState.s1 zero)
  rw [one] at two
  revert two
  decide

theorem draw_nonzero (live : state ≠ zeroState) (drawn : draw range turns state = some (random,after)) :
    after ≠ zeroState := by
  induction turns generalizing state with
  | zero => cases drawn
  | succ turns ih =>
      have next : nextState state ≠ zeroState := fun zero => live ((next_zero_iff state).mp zero)
      rw [draw] at drawn
      by_cases rejected : (xoshiro256pp state).1 < threshold range
      · exact ih next (by simpa [rejected,nextState] using drawn)
      · have same := Option.some.inj ((if_neg rejected).symm.trans drawn)
        rwa [← (Prod.mk.inj same).2]

theorem iterate_nonzero (live : state ≠ zeroState) (n : Nat) : nextState^[n] state ≠ zeroState := by
  induction n generalizing state with
  | zero => exact live
  | succ n ih => exact ih fun zero => live ((next_zero_iff state).mp zero)

-- No seed and no number of calls leads to the state that stays zero.
theorem never_degenerates :
    (∀ seed,initializeState seed ≠ zeroState) ∧ Function.Bijective nextState ∧
      (∀ state,nextState state = zeroState ↔ state = zeroState) ∧
      (∀ seed n,nextState^[n] (initializeState seed) ≠ zeroState) ∧
      ∀ turns first limit state value after,state ≠ zeroState →
        generate turns first limit state = some (value,after) → after ≠ zeroState := by
  refine ⟨initialize_nonzero,next_bijective,next_zero_iff,fun seed n => iterate_nonzero (initialize_nonzero seed) n,?_⟩
  intro turns first limit state value after live generated
  rw [generate] at generated
  split at generated
  · obtain ⟨⟨random,last⟩,drawn,same⟩ := Option.map_eq_some_iff.mp generated
    rw [← (Prod.mk.inj same).2]
    exact draw_nonzero live drawn
  · cases generated

end RandomNumbers
