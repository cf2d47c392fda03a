import Gameos.ShootdownCounts

namespace TlbShootdown
open TransitionRuns

variable {m : Machine} {bringup : Bringup} {s t : State} {action : Action} {i j : Nat}

-- How many CPUs below n, other than j, are online.
def others (online : Nat → Bool) (j n : Nat) : Nat := Nat.count (fun i => i ≠ j ∧ online i = true) n

theorem others_next (online : Nat → Bool) (j n : Nat) :
    others online j (n+1) = others online j n + if n = j ∨ online n = false then 0 else 1 := by
  rw [others,others,Nat.count_succ]
  by_cases self : n = j
  · simp [self]
  · cases online n <;> simp [self]

-- One more CPU online is counted once its index is passed.
theorem others_join (online : Nat → Bool) (other : i ≠ j) (off : online i = false) (n : Nat) :
    others (Function.update online i true) j n = others online j n + if i < n then 1 else 0 := by
  induction n with
  | zero => rfl
  | succ n ih =>
    rw [others_next,others_next,ih]
    by_cases here : n = i
    · subst here
      simp [other,off]
    · have before : i < n+1 ↔ i < n := by omega
      simp only [Function.update_of_ne here,before]
      omega

-- count is at most the true number, and equal to it where the count is exact.
def Near (exact : Prop) (count number : Nat) : Prop := count ≤ number ∧ (exact → number ≤ count)

-- What the numbers a CPU carries through shootdown say about the CPUs online
-- and the IPIs sent.
def Tally (exact : Prop) (m : Machine) (online : Nat → Bool) (required : Nat) (j : Nat) (cpu : Cpu) : Prop :=
  match cpu.phase with
  | .countingOnline _ _ _ => cpu.sent = []
  | .countingOthers _ total index count =>
    cpu.sent = [] ∧ index ≤ m.maxCpus ∧ Near (exact ∧ 1 < total) count (others online j index)
  | .counted _ total count => cpu.sent = [] ∧ Near (exact ∧ 1 < total) count (others online j m.maxCpus)
  | .locking _ count | .holding _ count | .requiring _ count =>
    cpu.sent = [] ∧ Near exact count (others online j m.maxCpus)
  | .addressing _ count => cpu.sent = [] ∧ Near exact count (others online j m.maxCpus) ∧ required = count
  | .sending _ index =>
    index ≤ m.maxCpus ∧ Near exact (required + others online j index) (cpu.sent.length + others online j m.maxCpus)
  | .flushing _ | .waiting _ => Near exact required cpu.sent.length
  | _ => True

def Tallied (exact : Prop) (m : Machine) (s : State) : Prop :=
  ∀ j, Tally exact m s.cpus_online s.required_acknowledgments j (s.cpu j)

-- The shootdown has counted past CPU i and may still send an IPI to it.
def Phase.overlooks (i : Nat) : Phase → Prop
  | .countingOthers _ online index _ => 1 < online ∧ i < index
  | .counted _ online _ => 1 < online
  | .locking .. | .holding .. | .requiring .. | .addressing .. => True
  | .sending _ index => index ≤ i
  | _ => False

-- No CPU comes online where a shootdown would overlook it.
def Settled (s : State) : Action → Prop
  | .startUp i => (s.cpu i).stage = .offline → ∀ j, ¬ (s.cpu j).phase.overlooks i
  | _ => True

theorem initial_tallied (exact : Prop) (m : Machine) : Tallied exact m (.initial m) := by
  intro j
  unfold Tally
  rw [initial_phase]
  trivial

theorem advance_online (step : Advance m s i t) : t.cpus_online = s.cpus_online := by
  funext j
  rw [State.cpus_online,State.cpus_online,(advance_stage step j).1]

-- Only the holder of the lock writes the shared record or sends.
theorem advance_outside (step : Advance m s i t) (outside : (s.cpu i).phase.inside = false) :
    t.required_acknowledgments = s.required_acknowledgments ∧ t.acknowledgments = s.acknowledgments ∧
      t.virtual_address = s.virtual_address ∧ t.ipis = s.ipis ∧ t.lost = s.lost ∧ t.acked = s.acked := by
  cases step with
  | nobody here | reset here | require here | publish here | skip here | send here | sent here | flush here
  | acknowledged here | unlock here => rw [here] at outside; cases outside
  | _ => exact ⟨rfl,rfl,rfl,rfl,rfl,rfl⟩

-- The standing of j is untouched by a step of another CPU inside shootdown.
theorem advance_elsewhere (sole : Sole s) (tallied : Tally exact m s.cpus_online s.required_acknowledgments j (s.cpu j))
    (step : Advance m s i t) (other : j ≠ i) :
    Tally exact m t.cpus_online t.required_acknowledgments j (t.cpu j) := by
  rw [advance_online step,advance_other step other]
  cases inside : (s.cpu j).phase.inside with
  | true =>
      have outside : (s.cpu i).phase.inside = false := by
        cases within : (s.cpu i).phase.inside with
        | true => exact absurd (sole.alone j i inside within) other
        | false => rfl
      rw [(advance_outside step outside).1]
      exact tallied
  | false =>
      unfold Tally at tallied ⊢
      cases here : (s.cpu j).phase <;> simp_all [Phase.inside]

-- One step of the shootdown keeps its own numbers true.
theorem advance_own (tallied : Tally exact m s.cpus_online s.required_acknowledgments i (s.cpu i))
    (step : Advance m s i t) : Tally exact m t.cpus_online t.required_acknowledgments i (t.cpu i) := by
  rw [advance_online step]
  cases step with
  | countOnline here more => rw [goto_self]; simp only [Tally,here] at tallied ⊢; exact tallied
  | countedOnline here =>
      rw [goto_self]
      simp only [Tally,here] at tallied ⊢
      exact ⟨tallied,Nat.zero_le _,Nat.le_refl _,fun _ => Nat.le_refl _⟩
  | @countOthers address total index count here more =>
      rw [goto_self]
      simp only [Tally,here] at tallied ⊢
      obtain ⟨unsent,_,below,above⟩ := tallied
      refine ⟨unsent,more,?_⟩
      rw [others_next]
      split
      · exact ⟨below,above⟩
      · exact ⟨Nat.succ_le_succ below,fun exact => Nat.succ_le_succ (above exact)⟩
  | countedOthers here all =>
      rw [goto_self]
      simp only [Tally,here] at tallied ⊢
      obtain ⟨unsent,within,near⟩ := tallied
      rw [Nat.le_antisymm within all] at near
      exact ⟨unsent,near⟩
  | alone here | nobody here | acknowledged here | unlock here | leave here => rw [goto_self]; trivial
  | restore here => rw [put_self]; trivial
  | disable here several =>
      rw [put_self]
      simp only [Tally,here] at tallied ⊢
      exact ⟨tallied.1,tallied.2.1,fun exact => tallied.2.2 ⟨exact,several⟩⟩
  | spin | await => exact tallied
  | take here | reset here => rw [goto_self]; simp only [Tally,here] at tallied ⊢; exact tallied
  | require here => rw [goto_self]; simp only [Tally,here] at tallied ⊢; exact ⟨tallied.1,tallied.2,rfl⟩
  | publish here =>
      rw [goto_self]
      simp only [Tally,here] at tallied ⊢
      obtain ⟨unsent,near,rfl⟩ := tallied
      refine ⟨Nat.zero_le _,?_⟩
      have none : others s.cpus_online i 0 = 0 := rfl
      rw [unsent,none,List.length_nil,Nat.zero_add]
      exact near
  | skip here more passed =>
      rw [goto_self]
      simp only [Tally,here] at tallied ⊢
      refine ⟨more,?_⟩
      rw [others_next,if_pos passed]
      exact tallied.2
  | @send address index here more another present =>
      obtain ⟨ipis,lost,sent⟩ := send_frame m s i index
      rw [sent,goto_self]
      simp only [Tally,here,recordSent_self] at tallied ⊢
      obtain ⟨_,below,above⟩ := tallied
      refine ⟨more,?_⟩
      rw [others_next,if_neg (by simp [another,present])]
      simp only [State.goto,State.recordSent,State.put,List.length_cons]
      refine ⟨?_,fun exact => ?_⟩
      · omega
      · have := above exact
        omega
  | sent here all =>
      rw [goto_self]
      simp only [Tally,here] at tallied ⊢
      obtain ⟨within,below,above⟩ := tallied
      rw [Nat.le_antisymm within all] at below above
      exact ⟨Nat.le_of_add_le_add_right below,fun exact => Nat.le_of_add_le_add_right (above exact)⟩
  | flush here => rw [goto_self]; simp only [Tally,here] at tallied ⊢; exact tallied

-- A CPU that comes online is one more CPU to reach: what a shootdown has counted
-- stays a lower bound, and stays exact unless the CPU is overlooked.
theorem tally_join (tallied : Tally exact m online required j cpu) (within : i < m.maxCpus) (other : i ≠ j)
    (off : online i = false) (noticed : exact → ¬ cpu.phase.overlooks i) :
    Tally exact m (Function.update online i true) required j cpu := by
  unfold Tally at tallied ⊢
  have joined := others_join online other off
  cases here : cpu.phase with
  | countingOthers address total index count =>
      simp only [here,joined] at tallied ⊢
      obtain ⟨unsent,inside,below,above⟩ := tallied
      refine ⟨unsent,inside,Nat.le_add_right_of_le below,?_⟩
      rintro ⟨exactly,several⟩
      have later : ¬ i < index := fun passed => noticed exactly (by rw [here]; exact ⟨several,passed⟩)
      rw [if_neg later]
      exact above ⟨exactly,several⟩
  | counted address total count =>
      simp only [here,joined] at tallied ⊢
      refine ⟨tallied.1,Nat.le_add_right_of_le tallied.2.1,?_⟩
      rintro ⟨exactly,several⟩
      exact absurd (by rw [here]; exact several) (noticed exactly)
  | locking address count | holding address count | requiring address count =>
      simp only [here,joined] at tallied ⊢
      exact ⟨tallied.1,Nat.le_add_right_of_le tallied.2.1,fun exactly => absurd (by rw [here]; trivial) (noticed exactly)⟩
  | addressing address count =>
      simp only [here,joined] at tallied ⊢
      obtain ⟨unsent,⟨below,_⟩,stored⟩ := tallied
      exact ⟨unsent,⟨Nat.le_add_right_of_le below,fun exactly => absurd (by rw [here]; trivial) (noticed exactly)⟩,stored⟩
  | sending address index =>
      simp only [here,joined] at tallied ⊢
      obtain ⟨inside,below,above⟩ := tallied
      rw [if_pos within]
      refine ⟨inside,?_,?_⟩
      · split <;> omega
      · intro exactly
        have passed : i < index := by
          apply Nat.lt_of_not_le
          intro ahead
          exact noticed exactly (by rw [here]; exact ahead)
        have := above exactly
        rw [if_pos passed]
        omega
  | countingOnline | flushing | waiting => simpa [here] using tallied
  | idle | unlocking | restoring | returned => simp

theorem startUp_online (moved : s.startUp m i bringup = some t) :
    t.cpus_online = Function.update s.cpus_online i true := by
  obtain ⟨_,_,stage,_,_,on,rfl⟩ := startUp_exact moved
  funext j
  by_cases same : j = i
  · subst same
    rw [State.cpus_online,put_self,Function.update_self]
    simpa using on
  · rw [State.cpus_online,put_other _ same,Function.update_of_ne same]
    rfl

theorem step_tallied (sole : Sole s) (tallied : Tallied exact m s) (settled : exact → Settled s action)
    (step : Step m bringup s action t) : Tallied exact m t := by
  intro j
  cases action with
  | call i address =>
      obtain ⟨_,idle,rfl⟩ := call_exact step
      have online : State.cpus_online {s.put i {s.cpu i with
            phase := .countingOnline address 0 0, call := s.calls, sent := []} with
          calls := s.calls+1, since := Function.update s.since i []} = s.cpus_online := by
        funext k
        by_cases same : k = i
        · subst same; simp [State.cpus_online]
        · simp [State.cpus_online,put_other _ same]
      rw [online]
      by_cases same : j = i
      · subst same
        dsimp only
        rw [put_self]
        exact rfl
      · dsimp only
        rw [put_other _ same]
        exact tallied j
  | advance i =>
      have moved := advance_cases step
      by_cases same : j = i
      · subst same; exact advance_own (tallied j) moved
      · exact advance_elsewhere sole (tallied j) moved same
  | handle i ipi =>
      obtain ⟨_,_,_,rfl⟩ := handle_exact step
      exact tallied j
  | startUp i =>
      have online := startUp_online step
      obtain ⟨within,coming,stage,lapic_id,interrupts,_,rfl⟩ := startUp_exact step
      by_cases same : j = i
      · subst same
        have idle : (s.cpu j).phase = .idle := by
          by_contra busy
          exact coming (sole.up j busy)
        rw [put_self]
        unfold Tally
        rw [idle]
        trivial
      · rw [online,put_other _ same]
        cases off : s.cpus_online i with
        | false =>
            have offline : (s.cpu i).stage = .offline := by simpa [State.cpus_online] using off
            exact tally_join (tallied j) within (Ne.symm same) off (fun exactly => settled exactly offline j)
        | true =>
            rw [← off,Function.update_eq_self]
            exact tallied j

end TlbShootdown
