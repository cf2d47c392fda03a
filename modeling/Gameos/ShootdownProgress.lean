import Gameos.ShootdownCompleteness

namespace TlbShootdown
open TransitionRuns

variable {m : Machine} {bringup : Bringup} {s t : State} {action : Action} {i j k address : Nat}

-- An IPI that the call sent to a CPU other than j.
def owedBy (call j : Nat) (ipi : Ipi) : Bool := ipi.call = call ∧ ipi.target ≠ j

-- Every IPI the call sent is acknowledged in the counter or still on its way.
def Owed (s : State) (j : Nat) : Prop :=
  (s.cpu j).phase.awaits = true →
    (s.cpu j).sent.length ≤ s.acknowledgments + s.ipis.countP (owedBy (s.cpu j).call j)

-- Every CPU an advance sends an IPI to receives it.
def Receives (m : Machine) (s : State) : Action → Prop
  | .advance i => ∀ address index, (s.cpu i).phase = .sending address index → index < m.maxCpus →
      s.cpus_online index = true → s.send m i index = {s with ipis := ⟨index,(s.cpu i).call⟩ :: s.ipis}
  | _ => True

theorem advance_owed (sole : Sole s) (tallied : Tallied False m s) (receives : Receives m s (.advance i))
    (owed : Owed s j) (step : Advance m s i t) : Owed t j := by
  intro awaits
  by_cases same : j = i
  · subst same
    have tally := tallied j
    cases step with
    | countOnline | countedOnline | countOthers | countedOthers | alone | take | nobody | reset | require
    | acknowledged | unlock | leave => rw [goto_self] at awaits; cases awaits
    | disable | restore => rw [put_self] at awaits; cases awaits
    | spin | await => exact owed awaits
    | publish here =>
        simp only [Tally,here] at tally
        rw [goto_self]
        simp [tally.1]
    | skip here | sent here | flush here =>
        have before := owed (by rw [here]; rfl)
        rw [goto_self]
        exact before
    | @send _ index here more another present =>
        have before := owed (by rw [here]; rfl)
        rw [receives _ _ here more present]
        simp only [goto_self,recordSent_self,goto_acknowledgments,goto_ipis,List.length_cons]
        show _ ≤ s.acknowledgments + List.countP _ (⟨index,(s.cpu j).call⟩ :: s.ipis)
        rw [List.countP_cons_of_pos (by simp [owedBy,another])]
        omega
  · have record := advance_other step same
    rw [record] at awaits ⊢
    have outside : (s.cpu i).phase.inside = false := by
      cases within : (s.cpu i).phase.inside with
      | true => exact absurd (sole.alone j i (awaits_inside awaits) within) same
      | false => rfl
    obtain ⟨_,counter,_,messages,_⟩ := advance_outside step outside
    have before := owed awaits
    rw [counter,messages]
    exact before

theorem step_owed (sole : Sole s) (tallied : Tallied False m s) (receives : Receives m s action)
    (owed : ∀ j, Owed s j) (step : Step m bringup s action t) : ∀ j, Owed t j := by
  intro j
  cases action with
  | call i address =>
      obtain ⟨_,_,rfl⟩ := call_exact step
      intro awaits
      by_cases same : j = i
      · subst same
        dsimp only at awaits
        rw [put_self] at awaits
        cases awaits
      · dsimp only at awaits ⊢
        rw [put_other _ same] at awaits ⊢
        exact owed j awaits
  | advance i => exact advance_owed sole tallied receives (owed j) (advance_cases step)
  | handle i ipi =>
      obtain ⟨_,present,_,rfl⟩ := handle_exact step
      intro awaits
      have before := owed j awaits
      -- one message less, one acknowledgement more
      have split := (List.perm_cons_erase present).countP_eq (owedBy (s.cpu j).call j)
      rw [List.countP_cons] at split
      show (s.cpu j).sent.length ≤ s.acknowledgments+1+(s.ipis.erase ipi).countP (owedBy (s.cpu j).call j)
      split at split <;> omega
  | startUp i =>
      obtain ⟨_,coming,stage,lapic_id,interrupts,_,rfl⟩ := startUp_exact step
      intro awaits
      by_cases same : j = i
      · subst same
        rw [put_self] at awaits ⊢
        exact owed j awaits
      · rw [put_other _ same] at awaits ⊢
        exact owed j awaits

-- A shootdown that waits has an acknowledgement to come.
theorem waiting_owed (tallied : Tallied False m s) (owed : Owed s j) (here : (s.cpu j).phase = .waiting address)
    (less : s.acknowledgments < s.required_acknowledgments) :
    ∃ ipi ∈ s.ipis, ipi.call = (s.cpu j).call ∧ ipi.target ≠ j := by
  have tally := tallied j
  simp only [Tally,here] at tally
  have enough := owed (by rw [here]; rfl)
  have required := tally.1
  have some : 0 < s.ipis.countP (owedBy (s.cpu j).call j) := by omega
  obtain ⟨ipi,present,owes⟩ := List.countP_pos_iff.mp some
  exact ⟨ipi,present,by simpa [owedBy] using owes⟩

-- From disabling interrupts to restoring them.
def Phase.guarded : Phase → Bool
  | .locking .. | .restoring .. => true
  | phase => phase.inside

def Phase.spinsOnLock : Phase → Bool
  | .locking .. => true
  | _ => false

-- The shootdown of j is not yet done with CPU i: it has not sent, or its IPI to
-- i is on its way.
def Needs (s : State) (j i : Nat) : Prop :=
  match (s.cpu j).phase with
  | .locking .. | .holding .. | .requiring .. | .addressing .. => True
  | .sending _ index => index ≤ i ∨ ∃ ipi ∈ s.ipis, ipi.target = i
  | .flushing _ | .waiting _ => ∃ ipi ∈ s.ipis, ipi.target = i
  | _ => False

-- A CPU disables interrupts for the lock only if no other shootdown needs it.
def Uncontended (s : State) : Action → Prop
  | .advance i => ∀ address online required, (s.cpu i).phase = .counted address online required → 1 < online →
      ∀ j, j ≠ i → ¬ Needs s j i
  | _ => True

-- CPU j waits for the acknowledgement of CPU i, which cannot take the IPI while
-- it spins on the lock j holds.
def Deadlocked (s : State) (j i : Nat) : Prop :=
  i ≠ j ∧ (∃ address, (s.cpu j).phase = .waiting address) ∧ s.acknowledgments < s.required_acknowledgments ∧
    (s.cpu i).phase.spinsOnLock = true ∧ (s.cpu i).interrupts = false ∧
    ∃ ipi ∈ s.ipis, ipi.target = i ∧ ipi.call = (s.cpu j).call

-- The steps of shootdowns under way and of the handlers of their IPIs.
def Action.serves : Action → Bool
  | .advance _ | .handle _ _ => true
  | _ => false

def Action.spins (s : State) : Action → Bool
  | .advance i => Spins s i
  | _ => false

def Progress (m : Machine) (s : State) : Prop :=
  (∃ j, (s.cpu j).phase ≠ .idle) →
    ∃ action t, action.serves = true ∧ action.spins s = false ∧ Step m .whole s action t

structure Live (m : Machine) (s : State) : Prop where
  sole : Sole s
  tallied : Tallied False m s
  ready : Ready m s
  owed : ∀ j, Owed s j
  known : ∀ ipi ∈ s.ipis, s.cpus_online ipi.target = true
  enabled : ∀ i, (s.cpu i).phase.guarded = true → (s.cpu i).enabled = true
  taking : ∀ i, (s.cpu i).stage = .running → (s.cpu i).phase.guarded = false → (s.cpu i).interrupts = true
  free : ∀ i j, j ≠ i → (s.cpu i).phase.spinsOnLock = true → ¬ Needs s j i

theorem initial_live (m : Machine) : Live m (.initial m) := by
  refine ⟨initial_sole m,initial_tallied False m,initial_ready m,?_,?_,?_,?_,?_⟩
  · intro j awaits
    rw [initial_phase] at awaits
    cases awaits
  · intro ipi present
    cases present
  · intro i guarded
    rw [initial_phase] at guarded
    cases guarded
  · intro i running _
    by_cases zero : i = 0
    · subst zero
      rfl
    · simp [State.initial,zero,Cpu.off] at running
  · intro i j _ spins
    rw [initial_phase] at spins
    cases spins

theorem ready_receives (ready : Ready m s) (action : Action) : Receives m s action := by
  cases action with
  | advance i => exact fun _ _ _ _ online => send_ready ready online
  | _ => trivial

-- Interrupts are off exactly under the guard, which remembers that they were on.
theorem advance_flags
    (enabled : (s.cpu i).phase.guarded = true → (s.cpu i).enabled = true)
    (taking : (s.cpu i).phase.guarded = false → (s.cpu i).interrupts = true) (step : Advance m s i t) :
    ((t.cpu i).phase.guarded = true → (t.cpu i).enabled = true) ∧
      ((t.cpu i).phase.guarded = false → (t.cpu i).interrupts = true) := by
  cases step with
  | spin | await => exact ⟨enabled,taking⟩
  | disable here =>
      rw [put_self]
      exact ⟨fun _ => taking (by rw [here]; rfl),fun outside => (nomatch outside)⟩
  | restore here =>
      rw [put_self]
      exact ⟨fun guarded => (nomatch guarded),fun _ => enabled (by rw [here]; rfl)⟩
  | send here more another present =>
      obtain ⟨ipis,lost,sent⟩ := send_frame m s i _
      rw [sent,goto_self,recordSent_self]
      exact ⟨fun _ => enabled (by rw [here]; rfl),fun outside => (nomatch outside)⟩
  | countOnline here | countedOnline here | countOthers here | countedOthers here | alone here | leave here =>
      rw [goto_self]
      exact ⟨fun guarded => (nomatch guarded),fun _ => taking (by rw [here]; rfl)⟩
  | take here | nobody here | reset here | require here | publish here | skip here | sent here | flush here
  | acknowledged here | unlock here =>
      rw [goto_self]
      exact ⟨fun _ => enabled (by rw [here]; rfl),fun outside => (nomatch outside)⟩

-- The messages after a step that is no send of a present CPU were there before.
theorem advance_messages (receives : Receives m s (.advance i)) (step : Advance m s i t) (present : ipi ∈ t.ipis) :
    ipi ∈ s.ipis ∨ ∃ address index, (s.cpu i).phase = .sending address index ∧ s.cpus_online index = true ∧
      ipi = ⟨index,(s.cpu i).call⟩ := by
  cases step with
  | send here more another online =>
      rw [receives _ _ here more online] at present
      rcases List.mem_cons.mp present with rfl | earlier
      · exact .inr ⟨_,_,here,online,rfl⟩
      · exact .inl earlier
  | _ => exact .inl present

theorem needs_mono (same : (t.cpu j).phase = (s.cpu j).phase)
    (messages : (s.cpu j).phase.awaits = true → ∀ ipi ∈ t.ipis, ipi ∈ s.ipis) (needs : Needs t j i) : Needs s j i := by
  unfold Needs at needs ⊢
  rw [same] at needs
  cases here : (s.cpu j).phase with
  | sending address index =>
      simp only [here] at needs ⊢
      obtain ahead | ⟨ipi,present,target⟩ := needs
      · exact .inl ahead
      · exact .inr ⟨ipi,messages (by rw [here]; rfl) ipi present,target⟩
  | flushing | waiting =>
      simp only [here] at needs ⊢
      obtain ⟨ipi,present,target⟩ := needs
      exact ⟨ipi,messages (by rw [here]; rfl) ipi present,target⟩
  | locking | holding | requiring | addressing => trivial
  | _ => simp only [here] at needs

-- The shootdown's own step needs no CPU it was done with.
theorem needs_back (receives : Receives m s (.advance i)) (step : Advance m s i t) (needs : Needs t i k) :
    Needs s i k ∨ ∃ address online required, (s.cpu i).phase = .counted address online required ∧ 1 < online := by
  cases step with
  | countOnline | countedOnline | countOthers | countedOthers | alone | nobody | acknowledged | unlock | leave =>
      unfold Needs at needs
      rw [goto_self] at needs
      exact needs.elim
  | restore =>
      unfold Needs at needs
      rw [put_self] at needs
      exact needs.elim
  | disable here several => exact .inr ⟨_,_,_,here,several⟩
  | spin | await => exact .inl needs
  | take here | reset here | require here | publish here =>
      left
      unfold Needs
      rw [here]
      trivial
  | skip here =>
      left
      unfold Needs at needs ⊢
      rw [goto_self] at needs
      rw [here]
      exact needs.imp_left (fun ahead => Nat.le_of_succ_le ahead)
  | send here more another online =>
      left
      rw [receives _ _ here more online] at needs
      unfold Needs at needs ⊢
      rw [goto_self] at needs
      rw [here]
      obtain ahead | ⟨ipi,present,target⟩ := needs
      · exact .inl (Nat.le_of_succ_le ahead)
      · rcases List.mem_cons.mp present with rfl | earlier
        · exact .inl (Nat.le_of_eq target)
        · exact .inr ⟨ipi,earlier,target⟩
  | sent here | flush here =>
      left
      unfold Needs at needs ⊢
      rw [goto_self] at needs
      rw [here]
      first
        | exact .inr needs
        | exact needs

theorem advance_spins (step : Advance m s i t) (spins : (t.cpu i).phase.spinsOnLock = true) :
    t = s ∨ t.ipis = s.ipis ∧
      ∃ address online required, (s.cpu i).phase = .counted address online required ∧ 1 < online := by
  cases step with
  | spin | await => exact .inl rfl
  | disable here several => exact .inr ⟨rfl,_,_,_,here,several⟩
  | restore => rw [put_self] at spins; cases spins
  | _ => rw [goto_self] at spins; cases spins

theorem advance_free (live : Live m s) (uncontended : Uncontended s (.advance i)) (step : Advance m s i t) :
    ∀ k j, j ≠ k → (t.cpu k).phase.spinsOnLock = true → ¬ Needs t j k := by
  have receives := ready_receives live.ready (.advance i)
  intro k j other spins needs
  by_cases spinner : k = i
  · subst spinner
    have before : Needs s j k := by
      rcases advance_spins step spins with rfl | ⟨messages,_⟩
      · exact needs
      · refine needs_mono (by rw [advance_other step other]) ?_ needs
        intro _
        rw [messages]
        exact fun _ present => present
    rcases advance_spins step spins with rfl | ⟨_,address,online,required,here,several⟩
    · exact live.free k j other spins before
    · exact uncontended address online required here several j other before
  · rw [advance_other step spinner] at spins
    by_cases own : j = i
    · subst own
      rcases needs_back receives step needs with before | ⟨address,online,required,here,several⟩
      · exact live.free k j other spins before
      · -- k spins already, so j was not free to disable its interrupts
        refine uncontended address online required here several k (Ne.symm other) ?_
        unfold Needs
        cases here' : (s.cpu k).phase <;> simp_all [Phase.spinsOnLock]
    · refine live.free k j other spins (needs_mono (by rw [advance_other step own]) ?_ needs)
      intro awaits
      have outside : (s.cpu i).phase.inside = false := by
        cases within : (s.cpu i).phase.inside with
        | true => exact absurd (live.sole.alone j i (awaits_inside awaits) within) own
        | false => rfl
      rw [(advance_outside step outside).2.2.2.1]
      exact fun _ present => present

theorem advance_live (live : Live m s) (uncontended : Uncontended s (.advance i)) (step : Step m .whole s (.advance i) t) :
    Live m t := by
  have moved := advance_cases step
  have receives := ready_receives live.ready (.advance i)
  have up := live.sole.up i (advance_busy moved)
  have flags := advance_flags (live.enabled i) (live.taking i up) moved
  refine ⟨step_sole live.sole step,step_tallied live.sole live.tallied (fun impossible => impossible.elim) step,
    step_ready live.ready step,step_owed live.sole live.tallied receives live.owed step,?_,?_,?_,
    advance_free live uncontended moved⟩
  · intro ipi present
    rw [advance_online moved]
    rcases advance_messages receives moved present with before | ⟨_,_,_,online,rfl⟩
    · exact live.known ipi before
    · exact online
  · intro k
    by_cases same : k = i
    · subst same
      exact flags.1
    · rw [advance_other moved same]
      exact live.enabled k
  · intro k running
    by_cases same : k = i
    · subst same
      exact flags.2
    · rw [advance_other moved same] at running ⊢
      exact live.taking k running

theorem call_live (live : Live m s) (step : Step m .whole s (.call i address) t) : Live m t := by
  have receives : Receives m s (.call i address) := trivial
  have sole := step_sole live.sole step
  have tallied : Tallied False m t := step_tallied live.sole live.tallied (fun impossible => impossible.elim) step
  have ready := step_ready live.ready step
  have owed := step_owed live.sole live.tallied receives live.owed step
  obtain ⟨running,idle,rfl⟩ := call_exact step
  have taking := live.taking i running (by rw [idle]; rfl)
  refine ⟨sole,tallied,ready,owed,?_,?_,?_,?_⟩
  · intro ipi present
    have known := live.known ipi present
    by_cases same : ipi.target = i
    · rw [same] at known ⊢
      simpa [State.cpus_online] using known
    · simpa [State.cpus_online,put_other _ same] using known
  · intro k
    by_cases same : k = i
    · subst same
      dsimp only
      rw [put_self]
      intro guarded
      cases guarded
    · dsimp only
      rw [put_other _ same]
      exact live.enabled k
  · intro k
    by_cases same : k = i
    · subst same
      dsimp only
      rw [put_self]
      exact fun _ _ => taking
    · dsimp only
      rw [put_other _ same]
      exact live.taking k
  · intro k j other spins
    have still : ∀ l, l ≠ i → (s.put i {s.cpu i with phase := .countingOnline address 0 0, call := s.calls, sent := []}).cpu l =
        s.cpu l := fun l same => put_other _ same
    have spinner : k ≠ i := by
      rintro rfl
      dsimp only at spins
      rw [put_self] at spins
      cases spins
    dsimp only at spins
    rw [still k spinner] at spins
    by_cases own : j = i
    · subst own
      unfold Needs
      dsimp only
      rw [put_self]
      exact id
    · intro needs
      exact live.free k j other spins
        (needs_mono (congrArg Cpu.phase (still j own)) (fun _ _ present => present) needs)

theorem handle_live (live : Live m s) (step : Step m .whole s (.handle i ipi) t) : Live m t := by
  have receives : Receives m s (.handle i ipi) := trivial
  have sole := step_sole live.sole step
  have tallied : Tallied False m t := step_tallied live.sole live.tallied (fun impossible => impossible.elim) step
  have ready := step_ready live.ready step
  have owed := step_owed live.sole live.tallied receives live.owed step
  obtain ⟨_,present,_,rfl⟩ := handle_exact step
  refine ⟨sole,tallied,ready,owed,?_,live.enabled,live.taking,?_⟩
  · intro other under
    exact live.known other (List.mem_of_mem_erase under)
  · intro k j other spins needs
    exact live.free k j other spins (needs_mono (t := s.handle i ipi) rfl (fun _ _ under => List.mem_of_mem_erase under) needs)

theorem startUp_live (live : Live m s) (step : Step m .whole s (.startUp i) t) : Live m t := by
  have receives : Receives m s (.startUp i) := trivial
  have sole := step_sole live.sole step
  have tallied : Tallied False m t := step_tallied live.sole live.tallied (fun impossible => impossible.elim) step
  have ready := step_ready live.ready step
  have owed := step_owed live.sole live.tallied receives live.owed step
  have moved : s.startUp m i .whole = some t := step
  have online := startUp_online moved
  simp only [Step,next,State.startUp] at step
  split at step
  · rename_i asleep
    cases step
    have idle : (s.cpu i).phase = .idle := by
      by_contra busy
      have running := live.sole.up i busy
      rw [asleep.2] at running
      cases running
    have phases : ∀ k, ((s.put i {s.cpu i with stage := .running, lapic_id := m.apicId i, interrupts := true}).cpu k).phase =
        (s.cpu k).phase := by
      intro k
      by_cases same : k = i
      · subst same; rw [put_self]
      · rw [put_other _ same]
    refine ⟨sole,tallied,ready,owed,?_,?_,?_,?_⟩
    · intro ipi present
      rw [online]
      by_cases same : ipi.target = i
      · rw [same,Function.update_self]
      · rw [Function.update_of_ne same]
        exact live.known ipi present
    · intro k
      rw [phases k]
      by_cases same : k = i
      · subst same
        rw [idle]
        intro guarded
        cases guarded
      · rw [put_other _ same]
        exact live.enabled k
    · intro k
      by_cases same : k = i
      · subst same
        rw [put_self]
        exact fun _ _ => rfl
      · rw [put_other _ same]
        exact live.taking k
    · intro k j other spins needs
      rw [phases k] at spins
      exact live.free k j other spins (needs_mono (phases j) (fun _ _ present => present) needs)
  · cases step

theorem step_live (live : Live m s) (uncontended : Uncontended s action) (step : Step m .whole s action t) : Live m t := by
  cases action with
  | call i address => exact call_live live step
  | advance i => exact advance_live live uncontended step
  | handle i ipi => exact handle_live live step
  | startUp i => exact startUp_live live step

theorem live_undeadlocked (live : Live m s) : ¬ Deadlocked s j i := by
  rintro ⟨other,⟨address,here⟩,_,spins,_,ipi,present,target,_⟩
  refine live.free i j (Ne.symm other) spins ?_
  unfold Needs
  rw [here]
  exact ⟨ipi,present,target⟩

-- A CPU in shootdown that is at neither spin loop has its next step.
theorem advance_enabled (busy : (s.cpu i).phase ≠ .idle) : ∃ t, advance m s i = some t := by
  unfold advance
  cases here : (s.cpu i).phase with
  | idle => exact absurd here busy
  | countingOnline | countingOthers | counted | locking | holding | waiting => dsimp only; split <;> exact ⟨_,rfl⟩
  | sending =>
      dsimp only
      split
      · split <;> exact ⟨_,rfl⟩
      · exact ⟨_,rfl⟩
  | requiring | addressing | flushing | unlocking | restoring | returned => exact ⟨_,rfl⟩

theorem advance_progress (busy : (s.cpu i).phase ≠ .idle) (free : Spins s i = false) :
    ∃ action t, action.serves = true ∧ action.spins s = false ∧ Step m .whole s action t := by
  obtain ⟨t,moved⟩ := advance_enabled (m := m) busy
  exact ⟨.advance i,t,rfl,free,moved⟩

-- The IPI a waiting shootdown is owed can be taken now, or its target has a step
-- of its own.
theorem waiting_progress (live : Live m s) (here : (s.cpu j).phase = .waiting address)
    (less : s.acknowledgments < s.required_acknowledgments) :
    ∃ action t, action.serves = true ∧ action.spins s = false ∧ Step m .whole s action t := by
  obtain ⟨ipi,present,_,other⟩ := waiting_owed live.tallied (live.owed j) here less
  have up := (live.ready ipi.target (live.known ipi present)).1
  have inside : (s.cpu j).phase.inside = true := by rw [here]; rfl
  cases guarded : (s.cpu ipi.target).phase.guarded with
  | false =>
      have taking := live.taking ipi.target up guarded
      refine ⟨.handle ipi.target ipi,s.handle ipi.target ipi,rfl,rfl,?_⟩
      simp [Step,next,taking,present]
  | true =>
      -- its target holds no lock and does not spin, so it is about to restore its interrupts
      have outside : (s.cpu ipi.target).phase.inside = false := by
        cases within : (s.cpu ipi.target).phase.inside with
        | true => exact absurd (live.sole.alone ipi.target j within inside) other
        | false => rfl
      cases target : (s.cpu ipi.target).phase with
      | locking =>
          refine absurd ?_ (live.free ipi.target j (Ne.symm other) (by rw [target]; rfl))
          unfold Needs
          rw [here]
          exact ⟨ipi,present,rfl⟩
      | restoring => exact advance_progress (by rw [target]; simp) (by simp [Spins,target])
      | _ => simp_all [Phase.guarded,Phase.inside]

theorem live_progress (live : Live m s) : Progress m s := by
  rintro ⟨j,busy⟩
  cases spins : Spins s j with
  | false => exact advance_progress busy spins
  | true =>
      unfold Spins at spins
      cases here : (s.cpu j).phase with
      | waiting address =>
          simp only [here,decide_eq_true_eq] at spins
          exact waiting_progress live here spins
      | locking address required =>
          -- somebody holds the lock: it moves on, or it waits for an acknowledgement
          simp only [here] at spins
          obtain ⟨k,inside⟩ := live.sole.taken spins
          have busy' : (s.cpu k).phase ≠ .idle := by
            intro idle
            rw [idle] at inside
            cases inside
          cases stuck : Spins s k with
          | false => exact advance_progress busy' stuck
          | true =>
              unfold Spins at stuck
              cases there : (s.cpu k).phase with
              | waiting address =>
                  simp only [there,decide_eq_true_eq] at stuck
                  exact waiting_progress live there stuck
              | locking => rw [there] at inside; cases inside
              | _ => simp [there] at stuck
      | _ => simp [here] at spins

theorem shootdowns_progress (run : Run (Step m .whole) Uncontended (State.initial m) actions s) :
    (∀ j i, ¬ Deadlocked s j i) ∧ Progress m s := by
  have live := run.keeps (Live m) (fun _ _ _ => step_live) (initial_live m)
  exact ⟨fun _ _ => live_undeadlocked live,live_progress live⟩

-- Runs in which one CPU alone calls shootdown.
def OnlyCalls (caller : Nat) (_ : State) : Action → Prop
  | .call i _ => i = caller
  | _ => True

theorem step_lone (lone : ∀ j, j ≠ k → (s.cpu j).phase = .idle) (only : OnlyCalls k s action)
    (step : Step m bringup s action t) : ∀ j, j ≠ k → (t.cpu j).phase = .idle := by
  intro j other
  cases action with
  | call i address =>
      obtain ⟨_,_,rfl⟩ := call_exact step
      have elsewhere : j ≠ i := by
        rintro rfl
        exact other only
      dsimp only
      rw [put_other _ elsewhere]
      exact lone j other
  | advance i =>
      have moved := advance_cases step
      have elsewhere : j ≠ i := by
        rintro rfl
        exact advance_busy moved (lone j other)
      rw [advance_other moved elsewhere]
      exact lone j other
  | handle i ipi =>
      obtain ⟨_,_,_,rfl⟩ := handle_exact step
      exact lone j other
  | startUp i =>
      obtain ⟨_,_,stage,lapic_id,interrupts,_,rfl⟩ := startUp_exact step
      by_cases same : j = i
      · subst same
        rw [put_self]
        exact lone j other
      · rw [put_other _ same]
        exact lone j other

theorem lone_uncontended (run : Run (Step m bringup) (OnlyCalls k) (State.initial m) actions s) :
    Run (Step m bringup) Uncontended (State.initial m) actions s := by
  refine run.weaken (fun _ _ _ lone only step => step_lone lone only step) ?_
    (fun j _ => initial_phase m j)
  intro s action t lone only step
  cases action with
  | advance i =>
      have caller : i = k := by
        by_contra other
        exact advance_busy (advance_cases step) (lone i other)
      intro address online required _ _ j other needs
      unfold Needs at needs
      rw [lone j (by rw [← caller]; exact other)] at needs
      exact needs
  | _ => trivial

def waitingTrace : List Action := .startUp 1 :: .call 0 4096 :: List.replicate 15 (.advance 0)

-- CPU 0 has sent its IPI to CPU 1 and waits.
theorem shootdowns_progress_waiting :
    ∃ s, (s.cpu 0).phase = .waiting 4096 ∧ (∀ j i, ¬ Deadlocked s j i) ∧ Progress (plain 2) s := by
  obtain ⟨s,played,waiting⟩ := plain_run 2 .whole (State.initial (plain 2)) waitingTrace
    (fun s => (s.cpu 0).phase) (.waiting 4096) (by decide)
  have alone : ∀ action ∈ waitingTrace, ∀ s, OnlyCalls 0 s action := by simp [waitingTrace,OnlyCalls]
  exact ⟨s,waiting,shootdowns_progress (lone_uncontended (played.throughout alone))⟩

-- Two CPUs count each other; CPU 0 takes the lock and waits for CPU 1, which has
-- disabled its interrupts for the lock.
def contendedTrace : List Action :=
  [.startUp 1,.call 0 4096,.call 1 8192] ++ List.replicate 7 (.advance 0) ++ List.replicate 7 (.advance 1) ++
    List.replicate 8 (.advance 0)

theorem contended_deadlocks :
    ¬ ∀ m actions s, Run (Step m .whole) (fun _ _ => True) (State.initial m) actions s →
      (∀ j i, ¬ Deadlocked s j i) ∧ Progress m s := by
  intro all
  obtain ⟨s,run,seen⟩ := plain_run 2 .whole (State.initial (plain 2)) contendedTrace
    (fun s => (s.cpu 0,s.cpu 1,s.acknowledgments,s.required_acknowledgments,s.ipis))
    (⟨.running,0,false,true,.waiting 4096,0,[1]⟩,⟨.running,1,false,true,.locking 8192 1,1,[]⟩,0,1,[⟨1,0⟩]) rfl
  simp only [Prod.mk.injEq] at seen
  obtain ⟨waits,spins,none,one,messages⟩ := seen
  have less : s.acknowledgments < s.required_acknowledgments := by
    rw [none,one]
    exact Nat.zero_lt_one
  exact (all _ _ s run).1 0 1 ⟨by simp,⟨4096,by rw [waits]⟩,less,by rw [spins]; rfl,by rw [spins],
    ⟨1,0⟩,by rw [messages]; exact List.mem_cons_self,rfl,by rw [waits]⟩

end TlbShootdown
