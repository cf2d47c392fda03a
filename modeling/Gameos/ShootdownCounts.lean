import Gameos.ShootdownSteps

namespace TlbShootdown
open TransitionRuns

variable {m : Machine} {bringup : Bringup} {s t : State} {action : Action} {i j : Nat}

@[simp] theorem put_self (cpu : Cpu) : (s.put i cpu).cpu i = cpu := Function.update_self ..

theorem put_other (cpu : Cpu) (other : j ≠ i) : (s.put i cpu).cpu j = s.cpu j := Function.update_of_ne other ..

@[simp] theorem goto_self (phase : Phase) : (s.goto i phase).cpu i = {s.cpu i with phase := phase} := put_self _

theorem goto_other (phase : Phase) (other : j ≠ i) : (s.goto i phase).cpu j = s.cpu j := put_other _ other

-- Where a CPU stands is no part of the shared record.
section Shared
variable (phase : Phase)

@[simp] theorem goto_locked : (s.goto i phase).locked = s.locked := rfl
@[simp] theorem goto_acknowledgments : (s.goto i phase).acknowledgments = s.acknowledgments := rfl
@[simp] theorem goto_required :
    (s.goto i phase).required_acknowledgments = s.required_acknowledgments := rfl
@[simp] theorem goto_address : (s.goto i phase).virtual_address = s.virtual_address := rfl
@[simp] theorem goto_ipis : (s.goto i phase).ipis = s.ipis := rfl
@[simp] theorem goto_lost : (s.goto i phase).lost = s.lost := rfl
@[simp] theorem goto_acked : (s.goto i phase).acked = s.acked := rfl
@[simp] theorem goto_since : (s.goto i phase).since = s.since := rfl

end Shared

@[simp] theorem flush_cpu (address : Nat) : (s.flush_local i address).cpu = s.cpu := rfl

@[simp] theorem recordSent_self (index : Nat) :
    (s.recordSent i index).cpu i = {s.cpu i with sent := index :: (s.cpu i).sent} := put_self _

-- A send touches the messages only.
theorem send_frame (m : Machine) (s : State) (i index : Nat) :
    ∃ ipis lost, s.send m i index = {s with ipis := ipis, lost := lost} := by
  unfold State.send
  split
  · split
    · exact ⟨_,_,rfl⟩
    · exact ⟨_,_,rfl⟩
  · exact ⟨_,_,rfl⟩

@[simp] theorem send_cpu (index : Nat) : (s.send m i index).cpu = s.cpu := by
  obtain ⟨ipis,lost,sent⟩ := send_frame m s i index
  rw [sent]

-- What a step of one CPU leaves alone in the record of another, and of itself.
theorem advance_other (step : Advance m s i t) (other : j ≠ i) : t.cpu j = s.cpu j := by
  cases step with
  | spin | await => rfl
  | disable | restore => exact put_other _ other
  | send => simp [goto_other,State.recordSent,put_other,other]
  | _ => exact goto_other _ other

theorem advance_stage (step : Advance m s i t) (j : Nat) :
    (t.cpu j).stage = (s.cpu j).stage ∧ (t.cpu j).lapic_id = (s.cpu j).lapic_id ∧
      (t.cpu j).call = (s.cpu j).call := by
  by_cases same : j = i
  · subst same
    cases step with
    | spin | await => exact ⟨rfl,rfl,rfl⟩
    | disable | restore => rw [put_self]; exact ⟨rfl,rfl,rfl⟩
    | send => simp
    | _ => rw [goto_self]; exact ⟨rfl,rfl,rfl⟩
  · rw [advance_other step same]
    exact ⟨rfl,rfl,rfl⟩

-- The lock is held from test_and_set to the guard's destructor.
def Phase.inside : Phase → Bool
  | .holding .. | .requiring .. | .addressing .. | .sending .. | .flushing .. | .waiting .. | .unlocking .. => true
  | _ => false

structure Sole (s : State) : Prop where
  up : ∀ j, (s.cpu j).phase ≠ .idle → (s.cpu j).stage = .running
  held : ∀ j, (s.cpu j).phase.inside = true → s.locked = true
  taken : s.locked = true → ∃ j, (s.cpu j).phase.inside = true
  alone : ∀ j j', (s.cpu j).phase.inside = true → (s.cpu j').phase.inside = true → j = j'

theorem initial_phase (m : Machine) (j : Nat) : ((State.initial m).cpu j).phase = .idle := by
  simp only [State.initial]
  split <;> rfl

theorem initial_sole (m : Machine) : Sole (State.initial m) := by
  refine ⟨?_,?_,?_,?_⟩
  · intro j busy
    exact absurd (initial_phase m j) busy
  · intro j inside
    rw [initial_phase] at inside
    cases inside
  · intro locked
    cases locked
  · intro j j' inside _
    rw [initial_phase] at inside
    cases inside

-- What decides who is inside: an advance keeps its own standing, enters a free
-- lock, or leaves it.
theorem advance_inside (step : Advance m s i t) :
    (t.locked = s.locked ∧ (t.cpu i).phase.inside = (s.cpu i).phase.inside) ∨
    (s.locked = false ∧ t.locked = true ∧ (t.cpu i).phase.inside = true) ∨
    ((s.cpu i).phase.inside = true ∧ (t.cpu i).phase.inside = false ∧ t.locked = false) := by
  cases step with
  | take here free => exact .inr (.inl ⟨free,rfl,by rw [goto_self]; rfl⟩)
  | unlock here => exact .inr (.inr ⟨by rw [here]; rfl,by rw [goto_self]; rfl,rfl⟩)
  | spin | await => exact .inl ⟨rfl,rfl⟩
  | disable here | restore here => exact .inl ⟨rfl,by rw [put_self,here]; rfl⟩
  | send here =>
      obtain ⟨ipis,lost,sent⟩ := send_frame m s i _
      rw [sent]
      exact .inl ⟨rfl,by rw [goto_self,here]; rfl⟩
  | countOnline here | countedOnline here | countOthers here | countedOthers here | alone here | nobody here
  | reset here | require here | publish here | skip here | sent here | flush here | acknowledged here
  | leave here => exact .inl ⟨rfl,by rw [goto_self,here]; rfl⟩

theorem advance_busy (step : Advance m s i t) : (s.cpu i).phase ≠ .idle := by
  cases step <;> rename_i here _ <;> simp_all

-- A step of the start-up writes the CPU's own stage, APIC id and interrupt flag.
theorem startUp_exact (moved : s.startUp m i bringup = some t) :
    i < m.maxCpus ∧ (s.cpu i).stage ≠ .running ∧ ∃ stage lapic_id interrupts, stage ≠ .offline ∧
      t = s.put i {s.cpu i with stage := stage, lapic_id := lapic_id, interrupts := interrupts} := by
  cases bringup with
  | whole =>
      simp only [State.startUp] at moved
      split at moved
      · rename_i asleep
        cases moved
        exact ⟨asleep.1,by rw [asleep.2]; simp,_,_,_,by simp,rfl⟩
      · cases moved
  | stepwise =>
      simp only [State.startUp] at moved
      split at moved
      · rename_i coming
        cases moved
        refine ⟨coming.1,coming.2,_,_,_,?_,rfl⟩
        cases (s.cpu i).stage <;> simp [Startup.next]
      · cases moved

theorem call_exact (moved : next m bringup s (.call i address) = some t) :
    (s.cpu i).stage = .running ∧ (s.cpu i).phase = .idle ∧
      t = {s.put i {s.cpu i with phase := .countingOnline address 0 0, call := s.calls, sent := []} with
        calls := s.calls+1, since := Function.update s.since i []} := by
  simp only [next] at moved
  split at moved
  · rename_i ready
    cases moved
    exact ⟨ready.1,ready.2,rfl⟩
  · cases moved

theorem handle_exact (moved : next m bringup s (.handle i ipi) = some t) :
    (s.cpu i).interrupts = true ∧ ipi ∈ s.ipis ∧ ipi.target = i ∧ t = s.handle i ipi := by
  simp only [next] at moved
  split at moved
  · rename_i taken
    cases moved
    exact ⟨taken.1,taken.2.1,taken.2.2,rfl⟩
  · cases moved

@[simp] theorem handle_cpu (ipi : Ipi) : (s.handle i ipi).cpu = s.cpu := rfl

theorem step_up (up : ∀ j, (s.cpu j).phase ≠ .idle → (s.cpu j).stage = .running)
    (step : Step m bringup s action t) : ∀ j, (t.cpu j).phase ≠ .idle → (t.cpu j).stage = .running := by
  intro j busy
  cases action with
  | call i address =>
      obtain ⟨running,_,rfl⟩ := call_exact step
      by_cases same : j = i
      · subst same
        dsimp only
        rw [put_self]
        exact running
      · dsimp only at busy ⊢
        rw [put_other _ same] at busy ⊢
        exact up j busy
  | advance i =>
      have moved := advance_cases step
      rw [(advance_stage moved j).1]
      by_cases same : j = i
      · subst same
        exact up j (advance_busy moved)
      · rw [advance_other moved same] at busy
        exact up j busy
  | handle i ipi =>
      obtain ⟨_,_,_,rfl⟩ := handle_exact step
      exact up j busy
  | startUp i =>
      obtain ⟨_,coming,stage,lapic_id,interrupts,_,rfl⟩ := startUp_exact step
      by_cases same : j = i
      · subst same
        rw [put_self] at busy
        exact absurd (up j busy) coming
      · rw [put_other _ same] at busy ⊢
        exact up j busy

-- The lock's part of a step that no CPU's advance makes.
theorem step_phases (step : Step m bringup s action t) (still : ∀ i, action ≠ .advance i) :
    t.locked = s.locked ∧ ∀ j, (t.cpu j).phase.inside = (s.cpu j).phase.inside := by
  cases action with
  | call i address =>
      obtain ⟨_,idle,rfl⟩ := call_exact step
      refine ⟨rfl,?_⟩
      intro j
      by_cases same : j = i
      · subst same
        dsimp only
        rw [put_self,idle]
        rfl
      · exact congrArg (fun cpu => cpu.phase.inside) (put_other _ same)
  | advance i => exact absurd rfl (still i)
  | handle i ipi =>
      obtain ⟨_,_,_,rfl⟩ := handle_exact step
      exact ⟨rfl,fun _ => rfl⟩
  | startUp i =>
      obtain ⟨_,_,stage,lapic_id,interrupts,_,rfl⟩ := startUp_exact step
      refine ⟨rfl,?_⟩
      intro j
      by_cases same : j = i
      · subst same
        rw [put_self]
      · rw [put_other _ same]

theorem advance_sole (sole : Sole s) (step : Advance m s i t) :
    (∀ j, (t.cpu j).phase.inside = true → t.locked = true) ∧
    (t.locked = true → ∃ j, (t.cpu j).phase.inside = true) ∧
    ∀ j j', (t.cpu j).phase.inside = true → (t.cpu j').phase.inside = true → j = j' := by
  have others : ∀ j, j ≠ i → (t.cpu j).phase.inside = (s.cpu j).phase.inside := by
    intro j other
    rw [advance_other step other]
  rcases advance_inside step with ⟨lock,same⟩ | ⟨free,taken,entered⟩ | ⟨inside,out,freed⟩
  · have all : ∀ j, (t.cpu j).phase.inside = (s.cpu j).phase.inside := by
      intro j
      by_cases self : j = i
      · subst self; exact same
      · exact others j self
    simp only [all,lock]
    exact ⟨sole.held,sole.taken,sole.alone⟩
  · -- nobody was inside while the lock was free, so the taker is alone
    have outside : ∀ j, j ≠ i → (t.cpu j).phase.inside ≠ true := by
      intro j other inside
      rw [others j other] at inside
      have := sole.held j inside
      rw [free] at this
      cases this
    have taker : ∀ j, (t.cpu j).phase.inside = true → j = i := by
      intro j inside
      by_contra other
      exact outside j other inside
    refine ⟨fun _ _ => taken,fun _ => ⟨i,entered⟩,?_⟩
    intro j j' inside inside'
    rw [taker j inside,taker j' inside']
  · have empty : ∀ j, (t.cpu j).phase.inside ≠ true := by
      intro j still
      by_cases self : j = i
      · subst self
        rw [out] at still
        cases still
      · rw [others j self] at still
        exact self (sole.alone j i still inside)
    refine ⟨fun j still => absurd still (empty j),?_,fun j _ still => absurd still (empty j)⟩
    intro locked
    rw [freed] at locked
    cases locked

theorem step_sole (sole : Sole s) (step : Step m bringup s action t) : Sole t := by
  have up := step_up sole.up step
  by_cases advances : ∃ i, action = .advance i
  · obtain ⟨i,rfl⟩ := advances
    obtain ⟨held,taken,alone⟩ := advance_sole sole (advance_cases step)
    exact ⟨up,held,taken,alone⟩
  · have still : ∀ i, action ≠ .advance i := fun i equal => advances ⟨i,equal⟩
    obtain ⟨lock,same⟩ := step_phases step still
    refine ⟨up,?_,?_,?_⟩
    · intro j inside
      rw [same] at inside
      rw [lock]
      exact sole.held j inside
    · intro locked
      rw [lock] at locked
      obtain ⟨j,inside⟩ := sole.taken locked
      exact ⟨j,by rw [same]; exact inside⟩
    · intro j j' inside inside'
      rw [same] at inside inside'
      exact sole.alone j j' inside inside'

end TlbShootdown
