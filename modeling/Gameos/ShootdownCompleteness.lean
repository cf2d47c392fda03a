import Gameos.ShootdownTally

namespace TlbShootdown
open TransitionRuns

variable {m : Machine} {s t : State} {action : Action} {i j address : Nat}

-- CPU i has flushed the address, or everything, since the current call of j began.
def Reached (s : State) (j address i : Nat) : Prop := ∃ b, (b = address ∨ b = FLUSH_ALL) ∧ (i,b) ∈ s.since j

def Done (s : State) (j address : Nat) : Prop :=
  Reached s j address j ∧ ∀ i ∈ (s.cpu j).sent, Reached s j address i

-- A shootdown that returns has been carried out by its caller and by every CPU
-- it sent an IPI to.
def Complete (s : State) : Prop := ∀ j address, (s.cpu j).phase = .returned address → Done s j address

-- The counter is this shootdown's from its reset to the end of its wait.
def Phase.counts : Phase → Bool
  | .requiring .. | .addressing .. | .sending .. | .flushing .. | .waiting .. => true
  | _ => false

-- The acknowledgements in the counter are those of its own IPIs.
def Unmixed (s : State) : Prop :=
  s.acknowledgments = s.acked.length ∧
    ∀ j, (s.cpu j).phase.counts = true → ∀ call ∈ s.acked, call = (s.cpu j).call

def Phase.awaits : Phase → Bool
  | .sending .. | .flushing .. | .waiting .. => true
  | _ => false

-- Every IPI sent is either on its way or acknowledged, and nothing else is.
structure Pending (s : State) (j address : Nat) : Prop where
  published : s.virtual_address = address
  balance : s.acknowledgments + s.ipis.length = (s.cpu j).sent.length
  own : ∀ ipi ∈ s.ipis, ipi.call = (s.cpu j).call
  counted : ∀ call ∈ s.acked, call = (s.cpu j).call
  served : ∀ i ∈ (s.cpu j).sent, Reached s j address i ∨ ∃ ipi ∈ s.ipis, ipi.target = i

def Serves (s : State) (j : Nat) : Prop :=
  match (s.cpu j).phase with
  | .requiring _ _ | .addressing _ _ => s.acknowledgments = 0 ∧ s.acked = []
  | .sending address _ | .flushing address => Pending s j address
  | .waiting address => Pending s j address ∧ Reached s j address j
  | .unlocking address | .restoring address | .returned address => Done s j address
  | _ => True

-- A CPU whose flag is set is up: its local APIC is enabled and its id is known.
def Ready (m : Machine) (s : State) : Prop :=
  ∀ i, s.cpus_online i = true → (s.cpu i).stage = .running ∧ (s.cpu i).lapic_id = m.apicId i

structure Faithful (m : Machine) (s : State) : Prop where
  sole : Sole s
  tallied : Tallied True m s
  ready : Ready m s
  counter : s.acknowledgments = s.acked.length
  quiet : ∀ ipi ∈ s.ipis, ∃ j, (s.cpu j).phase.awaits = true
  serves : ∀ j, Serves s j

theorem awaits_inside {phase : Phase} (awaits : phase.awaits = true) : phase.inside = true := by
  cases phase <;> simp_all [Phase.awaits,Phase.inside]

theorem initial_ready (m : Machine) : Ready m (.initial m) := by
  intro i online
  by_cases zero : i = 0
  · subst zero
    exact ⟨rfl,rfl⟩
  · simp [State.cpus_online,State.initial,zero,Cpu.off] at online

theorem initial_faithful (m : Machine) : Faithful m (.initial m) := by
  refine ⟨initial_sole m,initial_tallied True m,initial_ready m,rfl,?_,?_⟩
  · intro ipi present
    cases present
  · intro j
    unfold Serves
    rw [initial_phase]
    trivial

-- The log of flushes only grows.
theorem advance_since (step : Advance m s i t) (seen : x ∈ s.since j) : x ∈ t.since j := by
  cases step with
  | alone | nobody | flush => exact List.mem_cons_of_mem _ seen
  | send =>
      rename_i index _ _ _ _
      obtain ⟨ipis,lost,sent⟩ := send_frame m s i index
      rw [sent]
      exact seen
  | _ => exact seen

theorem reached_mono (grows : ∀ x, x ∈ s.since j → x ∈ t.since j) (reached : Reached s j address i) :
    Reached t j address i := by
  obtain ⟨b,same,seen⟩ := reached
  exact ⟨b,same,grows _ seen⟩

theorem done_mono (grows : ∀ x, x ∈ s.since j → x ∈ t.since j) (same : (t.cpu j).sent = (s.cpu j).sent)
    (done : Done s j address) : Done t j address := by
  refine ⟨reached_mono grows done.1,?_⟩
  rw [same]
  exact fun i present => reached_mono grows (done.2 i present)

theorem flushed (s : State) (i address : Nat) : Reached (s.flush_local i address) j address i :=
  ⟨address,.inl rfl,List.mem_cons_self⟩

theorem step_ready (ready : Ready m s) (step : Step m .whole s action t) : Ready m t := by
  intro k online
  cases action with
  | call i address =>
      obtain ⟨_,_,rfl⟩ := call_exact step
      by_cases same : k = i
      · subst same
        simp only [State.cpus_online,put_self] at online ⊢
        exact ready k online
      · simp only [State.cpus_online,put_other _ same] at online ⊢
        exact ready k online
  | advance i =>
      have moved := advance_cases step
      rw [advance_online moved] at online
      rw [(advance_stage moved k).1,(advance_stage moved k).2.1]
      exact ready k online
  | handle i ipi =>
      obtain ⟨_,_,_,rfl⟩ := handle_exact step
      exact ready k online
  | startUp i =>
      simp only [Step,next,State.startUp] at step
      split at step
      · cases step
        by_cases same : k = i
        · subst same
          rw [put_self]
          exact ⟨rfl,rfl⟩
        · simp only [State.cpus_online,put_other _ same] at online ⊢
          exact ready k online
      · cases step

-- A CPU that is up receives what is sent to it.
theorem send_ready (ready : Ready m s) (online : s.cpus_online j = true) :
    s.send m i j = {s with ipis := ⟨j,(s.cpu i).call⟩ :: s.ipis} := by
  obtain ⟨running,known⟩ := ready j online
  simp [State.send,known,m.found,running,Startup.apicEnabled]

-- A step that leaves the shared record, the messages and the CPU's record alone
-- and only adds to the log.
theorem serves_frame (serves : Serves s j) (same : t.cpu j = s.cpu j)
    (grows : ∀ x, x ∈ s.since j → x ∈ t.since j)
    (shared : (s.cpu j).phase.inside = true → t.acknowledgments = s.acknowledgments ∧
      t.virtual_address = s.virtual_address ∧ t.ipis = s.ipis ∧ t.acked = s.acked) : Serves t j := by
  have pending : ∀ address, (s.cpu j).phase.inside = true → Pending s j address → Pending t j address := by
    intro address inside waits
    obtain ⟨counter,published,messages,acked⟩ := shared inside
    refine ⟨by rw [published]; exact waits.published,?_,?_,?_,?_⟩
    · rw [counter,messages,same]
      exact waits.balance
    · rw [messages,same]
      exact waits.own
    · rw [acked,same]
      exact waits.counted
    · rw [same,messages]
      intro i present
      exact (waits.served i present).imp_left (reached_mono grows)
  have done : ∀ address, Done s j address → Done t j address :=
    fun address => done_mono grows (by rw [same])
  unfold Serves at serves ⊢
  rw [same]
  cases here : (s.cpu j).phase with
  | requiring | addressing =>
      simp only [here] at serves ⊢
      obtain ⟨counter,_,_,acked⟩ := shared (by rw [here]; rfl)
      rw [counter,acked]
      exact serves
  | sending | flushing => simp only [here] at serves ⊢; exact pending _ (by rw [here]; rfl) serves
  | waiting =>
      simp only [here] at serves ⊢
      exact ⟨pending _ (by rw [here]; rfl) serves.1,reached_mono grows serves.2⟩
  | unlocking | restoring | returned => simp only [here] at serves ⊢; exact done _ serves
  | _ => trivial

-- A holder of the lock that awaits nothing has nothing under way.
theorem no_messages (faithful : Faithful m s) (inside : (s.cpu i).phase.inside = true)
    (silent : (s.cpu i).phase.awaits = false) : s.ipis = [] := by
  apply List.eq_nil_iff_forall_not_mem.mpr
  intro ipi present
  obtain ⟨j,awaits⟩ := faithful.quiet ipi present
  rw [faithful.sole.alone i j inside (awaits_inside awaits),awaits] at silent
  cases silent

-- With as many acknowledgements as IPIs, no IPI is under way.
theorem all_acknowledged (faithful : Faithful m s) (here : (s.cpu i).phase = .waiting address)
    (enough : s.required_acknowledgments ≤ s.acknowledgments) : s.ipis = [] := by
  have serves := faithful.serves i
  have tally := faithful.tallied i
  simp only [Serves,here] at serves
  simp only [Tally,here] at tally
  have balance := serves.1.balance
  have counted := tally.2 trivial
  have none : s.ipis.length = 0 := by omega
  exact List.length_eq_zero_iff.mp none

-- Passing to another phase moves nothing that Pending or Done speaks of.
theorem pending_goto (pending : Pending s i address) (phase : Phase) : Pending (s.goto i phase) i address := by
  refine ⟨pending.published,?_,?_,?_,?_⟩
  · rw [goto_self]
    exact pending.balance
  · rw [goto_self]
    exact pending.own
  · rw [goto_self]
    exact pending.counted
  · rw [goto_self]
    exact pending.served

theorem done_goto (done : Done s i address) (phase : Phase) : Done (s.goto i phase) i address := by
  refine ⟨done.1,?_⟩
  rw [goto_self]
  exact done.2

theorem pending_flush (pending : Pending s i address) : Pending (s.flush_local i address) i address := by
  refine ⟨pending.published,pending.balance,pending.own,pending.counted,?_⟩
  intro k present
  exact (pending.served k present).imp_left (reached_mono fun _ seen => List.mem_cons_of_mem _ seen)

theorem pending_send (pending : Pending s i address) (index : Nat) :
    Pending ({s with ipis := ⟨index,(s.cpu i).call⟩ :: s.ipis}.recordSent i index) i address := by
  refine ⟨pending.published,?_,?_,?_,?_⟩
  · rw [recordSent_self]
    show s.acknowledgments+(s.ipis.length+1) = (s.cpu i).sent.length+1
    have balance := pending.balance
    omega
  · rw [recordSent_self]
    intro ipi present
    rcases List.mem_cons.mp present with rfl | earlier
    · rfl
    · exact pending.own ipi earlier
  · rw [recordSent_self]
    exact pending.counted
  · rw [recordSent_self]
    intro k present
    rcases List.mem_cons.mp present with rfl | earlier
    · exact .inr ⟨_,List.mem_cons_self,rfl⟩
    · rcases pending.served k earlier with reached | ⟨ipi,under,target⟩
      · exact .inl reached
      · exact .inr ⟨ipi,List.mem_cons_of_mem _ under,target⟩

theorem advance_serves (faithful : Faithful m s) (step : Advance m s i t) : Serves t i := by
  have serves := faithful.serves i
  have tally := faithful.tallied i
  have quiet := no_messages faithful (i := i)
  cases step with
  | countOnline | countedOnline | countOthers | countedOthers | take | leave => unfold Serves; rw [goto_self]; trivial
  | disable => unfold Serves; rw [put_self]; trivial
  | spin | await => exact serves
  | alone here | nobody here =>
      simp only [Tally,here] at tally
      unfold Serves
      rw [goto_self]
      refine ⟨flushed s i _,?_⟩
      rw [goto_self]
      simp [tally.1]
  | reset here => unfold Serves; rw [goto_self]; exact ⟨rfl,rfl⟩
  | require here => simp only [Serves,here] at serves; unfold Serves; rw [goto_self]; exact serves
  | publish here =>
      -- no IPI is under way, so the counter still holds the zero it was reset to
      simp only [Tally,here] at tally
      simp only [Serves,here] at serves
      have messages := quiet (by rw [here]; rfl) (by rw [here]; rfl)
      unfold Serves
      rw [goto_self]
      refine pending_goto ⟨rfl,?_,?_,?_,?_⟩ _
      · simp [serves.1,messages,tally.1]
      · simp [messages]
      · simp [serves.2]
      · simp [tally.1]
  | skip here | sent here =>
      simp only [Serves,here] at serves
      unfold Serves
      rw [goto_self]
      exact pending_goto serves _
  | send here more another present =>
      simp only [Serves,here] at serves
      unfold Serves
      rw [goto_self,send_ready faithful.ready present]
      exact pending_goto (pending_send serves _) _
  | flush here =>
      simp only [Serves,here] at serves
      unfold Serves
      rw [goto_self]
      exact ⟨pending_goto (pending_flush serves) _,flushed s i _⟩
  | acknowledged here enough =>
      have messages := all_acknowledged faithful here enough
      simp only [Serves,here] at serves
      unfold Serves
      rw [goto_self]
      refine done_goto ⟨serves.2,?_⟩ _
      intro k present
      rcases serves.1.served k present with reached | ⟨ipi,under,_⟩
      · exact reached
      · rw [messages] at under
        cases under
  | unlock here =>
      simp only [Serves,here] at serves
      unfold Serves
      rw [goto_self]
      exact done_goto (s := {s with locked := false}) serves _
  | restore here =>
      simp only [Serves,here] at serves
      unfold Serves
      rw [put_self]
      refine ⟨serves.1,?_⟩
      rw [put_self]
      exact serves.2

-- Messages under way always belong to a shootdown that awaits them.
theorem advance_quiet (faithful : Faithful m s) (step : Advance m s i t) :
    ∀ ipi ∈ t.ipis, ∃ j, (t.cpu j).phase.awaits = true := by
  intro ipi present
  cases inside : (s.cpu i).phase.inside with
  | false =>
      rw [(advance_outside step inside).2.2.2.1] at present
      obtain ⟨j,awaits⟩ := faithful.quiet ipi present
      have other : j ≠ i := by
        rintro rfl
        rw [awaits_inside awaits] at inside
        cases inside
      exact ⟨j,by rw [advance_other step other]; exact awaits⟩
  | true =>
      have quiet := no_messages faithful inside
      cases step with
      | countOnline here | countedOnline here | countOthers here | countedOthers here | alone here | disable here
      | spin here | take here | restore here | leave here => rw [here] at inside; cases inside
      | nobody here | reset here | require here | publish here | unlock here =>
          have none : s.ipis = [] := quiet (by rw [here]; rfl)
          have absent : ipi ∈ s.ipis := present
          rw [none] at absent
          cases absent
      | skip here | send here | sent here | flush here => exact ⟨i,by rw [goto_self]; rfl⟩
      | await here => exact ⟨i,by rw [here]; rfl⟩
      | acknowledged here enough =>
          have absent : ipi ∈ s.ipis := present
          rw [all_acknowledged faithful here enough] at absent
          cases absent

theorem advance_counter (counter : s.acknowledgments = s.acked.length) (step : Advance m s i t) :
    t.acknowledgments = t.acked.length := by
  cases step with
  | reset => rfl
  | send =>
      rename_i index _ _ _ _
      obtain ⟨ipis,lost,sent⟩ := send_frame m s i index
      rw [sent]
      exact counter
  | _ => exact counter

theorem advance_faithful (faithful : Faithful m s) (step : Step m .whole s (.advance i) t) : Faithful m t := by
  have moved := advance_cases step
  have free : Settled s (.advance i) := trivial
  refine ⟨step_sole faithful.sole step,step_tallied faithful.sole faithful.tallied (fun _ => free) step,
    step_ready faithful.ready step,advance_counter faithful.counter moved,advance_quiet faithful moved,?_⟩
  intro j
  by_cases same : j = i
  · subst same
    exact advance_serves faithful moved
  · refine serves_frame (faithful.serves j) (advance_other moved same) (fun _ => advance_since moved) ?_
    intro inside
    have outside : (s.cpu i).phase.inside = false := by
      cases within : (s.cpu i).phase.inside with
      | true => exact absurd (faithful.sole.alone j i inside within) same
      | false => rfl
    obtain ⟨_,counter,published,messages,_,acked⟩ := advance_outside moved outside
    exact ⟨counter,published,messages,acked⟩

-- A handler serves the one shootdown that awaits: it flushes the address that
-- shootdown published, and its acknowledgement is for it.
theorem handle_serves (faithful : Faithful m s) (present : ipi ∈ s.ipis) (target : ipi.target = i) :
    Serves (s.handle i ipi) j := by
  obtain ⟨waiter,awaits⟩ := faithful.quiet ipi present
  have serves := faithful.serves j
  have grows : ∀ x, x ∈ s.since j → x ∈ (s.handle i ipi).since j := fun _ seen => List.mem_cons_of_mem _ seen
  have pending : ∀ address, Pending s j address → Pending (s.handle i ipi) j address := by
    intro address waits
    refine ⟨waits.published,?_,?_,?_,?_⟩
    · have balance := waits.balance
      have positive := List.length_pos_of_mem present
      show s.acknowledgments+1+(s.ipis.erase ipi).length = (s.cpu j).sent.length
      rw [List.length_erase_of_mem present]
      omega
    · exact fun other under => waits.own other (List.mem_of_mem_erase under)
    · intro call counted
      rcases List.mem_cons.mp counted with rfl | earlier
      · exact waits.own ipi present
      · exact waits.counted call earlier
    · intro k sent
      rcases waits.served k sent with reached | ⟨other,under,aimed⟩
      · exact .inl (reached_mono grows reached)
      · by_cases same : other = ipi
        · subst same
          rw [← aimed,target]
          exact .inl ⟨s.virtual_address,.inl waits.published,List.mem_cons_self⟩
        · exact .inr ⟨other,(List.mem_erase_of_ne same).mpr under,aimed⟩
  have done : ∀ address, Done s j address → Done (s.handle i ipi) j address := fun _ => done_mono grows rfl
  unfold Serves at serves ⊢
  rw [handle_cpu]
  cases here : (s.cpu j).phase with
  | requiring | addressing =>
      have none := no_messages faithful (i := j) (by rw [here]; rfl) (by rw [here]; rfl)
      rw [none] at present
      cases present
  | sending | flushing => simp only [here] at serves ⊢; exact pending _ serves
  | waiting => simp only [here] at serves ⊢; exact ⟨pending _ serves.1,reached_mono grows serves.2⟩
  | unlocking | restoring | returned => simp only [here] at serves ⊢; exact done _ serves
  | _ => trivial

theorem handle_faithful (faithful : Faithful m s) (step : Step m .whole s (.handle i ipi) t) : Faithful m t := by
  have free : Settled s (.handle i ipi) := trivial
  have sole := step_sole faithful.sole step
  have tallied := step_tallied faithful.sole faithful.tallied (fun _ => free) step
  have ready := step_ready faithful.ready step
  obtain ⟨_,present,target,rfl⟩ := handle_exact step
  refine ⟨sole,tallied,ready,?_,?_,fun j => handle_serves faithful present target⟩
  · exact congrArg (· + 1) faithful.counter
  · intro other under
    exact faithful.quiet other (List.mem_of_mem_erase under)

theorem call_faithful (faithful : Faithful m s) (step : Step m .whole s (.call i address) t) : Faithful m t := by
  have free : Settled s (.call i address) := trivial
  have sole := step_sole faithful.sole step
  have tallied := step_tallied faithful.sole faithful.tallied (fun _ => free) step
  have ready := step_ready faithful.ready step
  obtain ⟨_,idle,rfl⟩ := call_exact step
  refine ⟨sole,tallied,ready,faithful.counter,?_,?_⟩
  · intro ipi present
    obtain ⟨j,awaits⟩ := faithful.quiet ipi present
    have other : j ≠ i := by
      rintro rfl
      rw [idle] at awaits
      cases awaits
    exact ⟨j,by dsimp only; rw [put_other _ other]; exact awaits⟩
  · intro j
    by_cases same : j = i
    · subst same
      unfold Serves
      dsimp only
      rw [put_self]
      trivial
    · refine serves_frame (faithful.serves j) (put_other _ same) ?_ (fun _ => ⟨rfl,rfl,rfl,rfl⟩)
      intro x seen
      dsimp only
      rw [Function.update_of_ne same]
      exact seen

theorem startUp_faithful (faithful : Faithful m s) (settled : Settled s (.startUp i))
    (step : Step m .whole s (.startUp i) t) : Faithful m t := by
  have sole := step_sole faithful.sole step
  have tallied := step_tallied faithful.sole faithful.tallied (fun _ => settled) step
  have ready := step_ready faithful.ready step
  have moved : s.startUp m i .whole = some t := step
  obtain ⟨_,coming,stage,lapic_id,interrupts,_,rfl⟩ := startUp_exact moved
  have idle : (s.cpu i).phase = .idle := by
    by_contra busy
    exact coming (faithful.sole.up i busy)
  refine ⟨sole,tallied,ready,faithful.counter,?_,?_⟩
  · intro ipi present
    obtain ⟨j,awaits⟩ := faithful.quiet ipi present
    have other : j ≠ i := by
      rintro rfl
      rw [idle] at awaits
      cases awaits
    exact ⟨j,by rw [put_other _ other]; exact awaits⟩
  · intro j
    by_cases same : j = i
    · subst same
      unfold Serves
      rw [put_self,idle]
      trivial
    · exact serves_frame (faithful.serves j) (put_other _ same) (fun _ seen => seen) (fun _ => ⟨rfl,rfl,rfl,rfl⟩)

theorem step_faithful (faithful : Faithful m s) (settled : Settled s action) (step : Step m .whole s action t) :
    Faithful m t := by
  cases action with
  | call i address => exact call_faithful faithful step
  | advance i => exact advance_faithful faithful step
  | handle i ipi => exact handle_faithful faithful step
  | startUp i => exact startUp_faithful faithful settled step

theorem faithful_complete (faithful : Faithful m s) : Complete s := by
  intro j address here
  have serves := faithful.serves j
  simp only [Serves,here] at serves
  exact serves

theorem faithful_unmixed (faithful : Faithful m s) : Unmixed s := by
  refine ⟨faithful.counter,?_⟩
  intro j counts call counted
  have serves := faithful.serves j
  unfold Serves at serves
  cases here : (s.cpu j).phase with
  | requiring | addressing =>
      simp only [here] at serves
      rw [serves.2] at counted
      cases counted
  | sending | flushing => simp only [here] at serves; exact serves.counted call counted
  | waiting => simp only [here] at serves; exact serves.1.counted call counted
  | _ => rw [here] at counts; cases counts

theorem shootdown_complete (run : Run (Step m .whole) Settled (State.initial m) actions s) :
    Complete s ∧ Unmixed s := by
  have faithful := run.keeps (Faithful m) (fun _ _ _ => step_faithful) (initial_faithful m)
  exact ⟨faithful_complete faithful,faithful_unmixed faithful⟩

-- Machines whose CPUs have their own index as APIC id.
def plain (maxCpus : Nat) : Machine := ⟨maxCpus,id,some,fun _ => rfl⟩

theorem plain_run (n : Nat) (bringup : Bringup) (s : State) (actions : List Action) (observe : State → Obs) (seen : Obs)
    (played : (follow (next (plain n) bringup) (fun _ _ => true) s actions).map observe = some seen) :
    ∃ t, Run (Step (plain n) bringup) (fun _ _ => True) s actions t ∧ observe t = seen := by
  obtain ⟨t,followed,same⟩ := Option.map_eq_some_iff.mp played
  exact ⟨t,follow_run _ _ (fun _ _ _ moved => moved) (fun _ _ _ => trivial) followed,same⟩

-- Two CPUs are up and nothing has happened.
def State.pair : State := (State.initial (plain 2)).put 1 ⟨.running,1,true,false,.idle,0,[]⟩

-- CPU 0 shoots an address down and CPU 1 takes the IPI.
def shootdownTrace : List Action :=
  .call 0 4096 :: List.replicate 15 (.advance 0) ++ .handle 1 ⟨1,0⟩ :: List.replicate 3 (.advance 0)

theorem shootdown_complete_pair :
    ∃ s, (s.cpu 0).phase = .returned 4096 ∧ (s.cpu 0).sent = [1] ∧ Complete s ∧ Unmixed s := by
  have first : Run (Step (plain 2) .whole) Settled (State.initial (plain 2)) [.startUp 1] State.pair := by
    refine .single ?_ rfl
    intro _ j overlooks
    rw [initial_phase] at overlooks
    exact overlooks
  obtain ⟨s,rest,seen⟩ := plain_run 2 .whole State.pair shootdownTrace
    (fun s => ((s.cpu 0).phase,(s.cpu 0).sent)) (.returned 4096,[1]) (by decide)
  have settled : ∀ action ∈ shootdownTrace, ∀ s, Settled s action := by simp [shootdownTrace,Settled]
  have run := first.append (rest.throughout settled)
  simp only [Prod.mk.injEq] at seen
  exact ⟨s,seen.1,seen.2,shootdown_complete run⟩

-- CPU 2 comes online after CPU 0 has counted one CPU and before it sends: it is
-- sent an IPI and CPU 0 returns without it.
def overlookedTrace : List Action :=
  [.startUp 1,.call 0 4096] ++ List.replicate 8 (.advance 0) ++ [.startUp 2] ++ List.replicate 10 (.advance 0) ++
    [.handle 1 ⟨1,0⟩] ++ List.replicate 3 (.advance 0)

theorem overlooked_returns :
    ¬ ∀ m actions s, Run (Step m .whole) (fun _ _ => True) (State.initial m) actions s → Complete s ∧ Unmixed s := by
  intro all
  obtain ⟨s,run,seen⟩ := plain_run 3 .whole (State.initial (plain 3)) overlookedTrace
    (fun s => ((s.cpu 0).phase,(s.cpu 0).sent,s.since 0))
    (.returned 4096,[2,1],[(1,4096),(0,4096)]) (by decide)
  simp only [Prod.mk.injEq] at seen
  obtain ⟨here,sent,log⟩ := seen
  obtain ⟨b,_,flushed⟩ := ((all _ _ s run).1 0 4096 here).2 2 (by rw [sent]; exact List.mem_cons_self)
  rw [log] at flushed
  simp at flushed

end TlbShootdown
