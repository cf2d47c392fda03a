import Gameos.ShootdownProgress

namespace TlbShootdown
open TransitionRuns

variable {m : Machine} {s t : State} {action : Action} {i j address : Nat}

-- No send loop reaches a CPU that has stored its online flag and not yet enabled
-- its local APIC.
def Awake (m : Machine) (s : State) : Action → Prop
  | .advance i => ∀ address index, (s.cpu i).phase = .sending address index → index < m.maxCpus →
      s.cpus_online index = true → (s.cpu index).stage.apicEnabled = true
  | _ => True

-- No IPI was lost, every IPI on its way is for a CPU that can take it, and a
-- shootdown that waits is owed one of them.
structure Arrives (s : State) : Prop where
  kept : s.lost = []
  taken : ∀ ipi ∈ s.ipis, (s.cpu ipi.target).stage.apicEnabled = true
  awaited : ∀ j address, (s.cpu j).phase = .waiting address → s.acknowledgments < s.required_acknowledgments →
    ∃ ipi ∈ s.ipis, ipi.call = (s.cpu j).call ∧ ipi.target ≠ j

-- cpu_local has stored the id before the local APIC is enabled.
def Wired (m : Machine) (s : State) : Prop :=
  ∀ i, (s.cpu i).stage = .cpuLocal ∨ (s.cpu i).stage.apicEnabled = true → (s.cpu i).lapic_id = m.apicId i

structure Heard (m : Machine) (s : State) : Prop where
  sole : Sole s
  tallied : Tallied False m s
  wired : Wired m s
  owed : ∀ j, Owed s j
  kept : s.lost = []
  taken : ∀ ipi ∈ s.ipis, (s.cpu ipi.target).stage.apicEnabled = true

theorem initial_heard (m : Machine) : Heard m (.initial m) := by
  refine ⟨initial_sole m,initial_tallied False m,?_,?_,rfl,?_⟩
  · intro i stage
    by_cases zero : i = 0
    · subst zero
      rfl
    · simp [State.initial,zero,Cpu.off,Startup.apicEnabled] at stage
  · intro j awaits
    rw [initial_phase] at awaits
    cases awaits
  · intro ipi present
    cases present

theorem awake_receives (wired : Wired m s) (awake : Awake m s action) : Receives m s action := by
  cases action with
  | advance i =>
      intro address index here more online
      have enabled := awake address index here more online
      simp [State.send,wired index (.inr enabled),m.found,enabled]
  | _ => trivial

theorem stage_frame (same : (t.cpu i).stage = (s.cpu i).stage ∧ (t.cpu i).lapic_id = (s.cpu i).lapic_id)
    (wired : (s.cpu i).stage = .cpuLocal ∨ (s.cpu i).stage.apicEnabled = true → (s.cpu i).lapic_id = m.apicId i) :
    (t.cpu i).stage = .cpuLocal ∨ (t.cpu i).stage.apicEnabled = true → (t.cpu i).lapic_id = m.apicId i := by
  rw [same.1,same.2]
  exact wired

-- The start-up reaches the local APIC only through cpu_local.
theorem startUp_wired (wired : (s.cpu i).stage = .cpuLocal ∨ (s.cpu i).stage.apicEnabled = true →
    (s.cpu i).lapic_id = m.apicId i) (moved : s.startUp m i .stepwise = some t) :
    ((t.cpu i).stage = .cpuLocal ∨ (t.cpu i).stage.apicEnabled = true → (t.cpu i).lapic_id = m.apicId i) ∧
      ((s.cpu i).stage.apicEnabled = true → (t.cpu i).stage.apicEnabled = true) := by
  simp only [State.startUp] at moved
  split at moved
  · rename_i coming
    cases moved
    rw [put_self]
    cases here : (s.cpu i).stage <;> simp_all [Startup.next,Startup.apicEnabled]
  · cases moved

theorem step_wired (wired : Wired m s) (step : Step m .stepwise s action t) : Wired m t ∧
    ∀ k, (s.cpu k).stage.apicEnabled = true → (t.cpu k).stage.apicEnabled = true := by
  cases action with
  | call i address =>
      obtain ⟨_,_,rfl⟩ := call_exact step
      have same : ∀ k, ((s.put i {s.cpu i with phase := .countingOnline address 0 0, call := s.calls, sent := []}).cpu k).stage =
          (s.cpu k).stage ∧
          ((s.put i {s.cpu i with phase := .countingOnline address 0 0, call := s.calls, sent := []}).cpu k).lapic_id =
          (s.cpu k).lapic_id := by
        intro k
        by_cases own : k = i
        · subst own; rw [put_self]; exact ⟨rfl,rfl⟩
        · rw [put_other _ own]; exact ⟨rfl,rfl⟩
      refine ⟨fun k => stage_frame (same k) (wired k),?_⟩
      intro k enabled
      dsimp only
      rw [(same k).1]
      exact enabled
  | advance i =>
      have same := advance_stage (advance_cases step)
      refine ⟨fun k => stage_frame ⟨(same k).1,(same k).2.1⟩ (wired k),?_⟩
      intro k enabled
      rw [(same k).1]
      exact enabled
  | handle i ipi =>
      obtain ⟨_,_,_,rfl⟩ := handle_exact step
      exact ⟨wired,fun _ enabled => enabled⟩
  | startUp i =>
      have moved : s.startUp m i .stepwise = some t := step
      have own := startUp_wired (wired i) moved
      obtain ⟨_,_,stage,lapic_id,interrupts,_,rfl⟩ := startUp_exact moved
      refine ⟨?_,?_⟩
      · intro k
        by_cases same : k = i
        · subst same; exact own.1
        · rw [put_other _ same]; exact wired k
      · intro k
        by_cases same : k = i
        · subst same; exact own.2
        · rw [put_other _ same]; exact id

theorem step_messages (receives : Receives m s action) (step : Step m .stepwise s action t) :
    t.lost = s.lost ∧ ∀ ipi ∈ t.ipis, ipi ∈ s.ipis ∨ ∃ i address index, action = .advance i ∧
      (s.cpu i).phase = .sending address index ∧ index < m.maxCpus ∧ s.cpus_online index = true ∧ ipi.target = index := by
  cases action with
  | call i address =>
      obtain ⟨_,_,rfl⟩ := call_exact step
      exact ⟨rfl,fun _ present => .inl present⟩
  | advance i =>
      cases advance_cases step with
      | send here more another online =>
          rw [receives _ _ here more online]
          refine ⟨rfl,?_⟩
          intro ipi present
          rcases List.mem_cons.mp present with rfl | earlier
          · exact .inr ⟨i,_,_,rfl,here,more,online,rfl⟩
          · exact .inl earlier
      | _ => exact ⟨rfl,fun _ present => .inl present⟩
  | handle i ipi =>
      obtain ⟨_,_,_,rfl⟩ := handle_exact step
      exact ⟨rfl,fun _ under => .inl (List.mem_of_mem_erase under)⟩
  | startUp i =>
      have moved : s.startUp m i .stepwise = some t := step
      obtain ⟨_,_,_,_,_,_,rfl⟩ := startUp_exact moved
      exact ⟨rfl,fun _ present => .inl present⟩

theorem step_heard (heard : Heard m s) (awake : Awake m s action) (step : Step m .stepwise s action t) : Heard m t := by
  have receives := awake_receives heard.wired awake
  obtain ⟨wired,stays⟩ := step_wired heard.wired step
  obtain ⟨lost,messages⟩ := step_messages receives step
  refine ⟨step_sole heard.sole step,step_tallied heard.sole heard.tallied (fun impossible => impossible.elim) step,wired,
    step_owed heard.sole heard.tallied receives heard.owed step,by rw [lost]; exact heard.kept,?_⟩
  intro ipi present
  apply stays
  rcases messages ipi present with before | ⟨i,address,index,rfl,here,more,online,rfl⟩
  · exact heard.taken ipi before
  · exact awake address _ here more online

theorem online_reached (run : Run (Step m .stepwise) (Awake m) (State.initial m) actions s) : Arrives s := by
  have heard := run.keeps (Heard m) (fun _ _ _ => step_heard) (initial_heard m)
  exact ⟨heard.kept,heard.taken,fun j _ => waiting_owed heard.tallied (heard.owed j)⟩

def isAwake (s : State) : Action → Bool
  | .advance i =>
    match (s.cpu i).phase with
    | .sending _ index => !s.cpus_online index || (s.cpu index).stage.apicEnabled
    | _ => true
  | _ => true

theorem isAwake_awake (checked : isAwake s action = true) : Awake m s action := by
  cases action with
  | advance i =>
      intro address index here _ online
      simpa [isAwake,here,online] using checked
  | _ => trivial

-- CPU 1 has completed its start-up, CPU 0 sends it an IPI and waits.
def startedTrace : List Action :=
  List.replicate 6 (.startUp 1) ++ .call 0 4096 :: List.replicate 15 (.advance 0)

theorem online_reached_pair : ∃ s, (s.cpu 0).phase = .waiting 4096 ∧ s.ipis = [⟨1,0⟩] ∧ Arrives s := by
  have played : (follow (next (plain 2) .stepwise) isAwake (State.initial (plain 2)) startedTrace).map
      (fun s => ((s.cpu 0).phase,s.ipis)) = some (.waiting 4096,[⟨1,0⟩]) := by decide
  obtain ⟨s,followed,seen⟩ := Option.map_eq_some_iff.mp played
  simp only [Prod.mk.injEq] at seen
  exact ⟨s,seen.1,seen.2,online_reached (m := plain 2)
    (follow_run _ _ (fun _ _ _ moved => moved) (fun _ _ checked => isAwake_awake checked) followed)⟩

-- CPU 1 has stored its flag and set up its cpu-local data; its local APIC is
-- still disabled when CPU 0 sends.
def asleepTrace : List Action :=
  List.replicate 4 (.startUp 1) ++ .call 0 4096 :: List.replicate 15 (.advance 0)

theorem asleep_lost :
    ¬ ∀ m actions s, Run (Step m .stepwise) (fun _ _ => True) (State.initial m) actions s → Arrives s := by
  intro all
  obtain ⟨s,run,seen⟩ := plain_run 2 .stepwise (State.initial (plain 2)) asleepTrace
    (fun s => s.lost) [⟨1,0⟩] (by decide)
  have kept := (all _ _ s run).kept
  rw [seen] at kept
  cases kept

end TlbShootdown
