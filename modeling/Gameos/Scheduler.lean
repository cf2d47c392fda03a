import Gameos.RingBuffer

namespace Scheduler

def threadMaxCount : Nat := 64

inductive ThreadState where
  | free
  | ready
  | running
  | done
deriving DecidableEq, Repr

-- Saved registers, known by the stack their rsp points into; 0 is the zeroed
-- context of an unused table entry.
structure Context where
  stack : Nat
deriving DecidableEq, Repr

-- `stack` names the storage a thread owns: its stack and what is freed with it.
-- Storage names are addresses, so 0 is the null pointer. An affinity of `none`
-- is ANY_CPU.
structure Thread where
  context : Context
  stack : Nat
  cpuAffinity : Option Nat
  state : ThreadState
  detached : Bool
deriving DecidableEq, Repr

def Thread.init : Thread := ⟨⟨0⟩,0,none,.free,false⟩

-- The thread whose stack a CPU executes on, as idle_poll's local variable has
-- it, and the stack its rsp really points into.
structure Seat where
  thread : Nat
  stack : Nat
deriving DecidableEq, Repr

-- Where a CPU stands between two atomic actions.
inductive Stage where
  -- code outside this module, in the idle loop or in a thread
  | client
  -- idle_poll: dequeued; marked RUNNING and current; back from the switch; saw DONE and detached
  | held (thread : Nat)
  | dispatched (thread : Nat)
  | returned (thread : Nat)
  | claiming (thread : Nat)
  -- yield or finish_current: the lock is released, the registers are (not yet) saved
  | leaving (thread : Nat) (saved : Bool)
  -- create_thread: an entry is reserved; its fields are written
  | creating (thread stack : Nat) (affinity : Option Nat)
  | created (thread : Nat)
  -- join: saw DONE
  | joining (thread : Nat)
deriving DecidableEq, Repr

-- `seat` is none while the CPU executes on its own idle stack.
structure Cpu where
  seat : Option Seat
  stage : Stage
deriving DecidableEq, Repr

structure State where
  threads : Nat → Thread
  readyQueue : RingBuffer Nat threadMaxCount
  currentThreads : Nat → Option Nat
  cpus : Nat → Cpu
  storage : List Nat

def initialState : State where
  threads _ := .init
  readyQueue := RingBuffer.empty (by decide)
  currentThreads _ := none
  cpus _ := ⟨none,.client⟩
  storage := []

-- One action of one CPU. A section under ready_lock is one action; so is each
-- unlocked part between two of them, the register save and the register load.
inductive Action where
  | reserve (cpu stack : Nat) (affinity : Option Nat)
  | prepare (cpu : Nat)
  | enqueue (cpu : Nat)
  | poll (cpu : Nat)
  | dispatch (cpu : Nat)
  | load (cpu : Nat)
  | yield (cpu : Nat)
  | finish (cpu : Nat)
  | save (cpu : Nat)
  | restore (cpu : Nat)
  | observe (cpu : Nat)
  | claim (cpu : Nat)
  | detach (cpu thread : Nat)
  | await (cpu thread : Nat)
  | join (cpu : Nat)
deriving DecidableEq, Repr

-- `blocked`: the CPU is not at the start of this action, or it would wait.
inductive Outcome where
  | blocked
  | asserted (message : String)
  | moved (state : State)

abbrev put (f : Nat → α) (i : Nat) (x : α) (j : Nat) : α := if j = i then x else f j

abbrev State.atStage (s : State) (c : Nat) (stage : Stage) (j : Nat) : Cpu :=
  put s.cpus c {s.cpus c with stage := stage} j
abbrev State.marked (s : State) (h : Nat) (state : ThreadState) (j : Nat) : Thread :=
  put s.threads h {s.threads h with state := state} j

def firstFree (threads : Nat → Thread) : Option Nat :=
  (List.range threadMaxCount).find? fun h => (threads h).state = .free

def eligible (s : State) (c h : Nat) : Bool :=
  (s.threads h).cpuAffinity = none || (s.threads h).cpuAffinity = some c

-- The rotation of idle_poll: `queued` elements are popped once each and every
-- one but the first eligible is pushed back.
def rotate (chosen : Nat → Bool) :
    Nat → Option Nat → RingBuffer Nat n → Option (Option Nat × RingBuffer Nat n)
  | 0,found,queue => some (found,queue)
  | queued+1,found,queue =>
    match queue.popFront with
    | none => none
    | some (candidate,queue) =>
      if found = none ∧ chosen candidate = true then rotate chosen queued (some candidate) queue
      else
        match queue.pushBack candidate with
        | none => none
        | some queue => rotate chosen queued found queue

-- thread = {} after its storage is freed.
def reclaim (s : State) (h : Nat) : State :=
  {s with threads := put s.threads h .init,storage := s.storage.erase (s.threads h).stack}

-- mem::alloc and the reservation are one action: until then the new stack is
-- known to the calling CPU only.
def createReserve (s : State) (c stack : Nat) (affinity : Option Nat) : Outcome :=
  if (s.cpus c).stage ≠ .client then .blocked
  else if stack = 0 then .asserted "Thread stack allocation failed"
  else if stack ∈ s.storage then .blocked
  else
    match firstFree s.threads with
    | none => .asserted "Thread table full"
    | some h =>
      if s.readyQueue.full then .asserted "Ready queue full"
      else .moved {s with
        threads := s.marked h .ready
        cpus := s.atStage c (.creating h stack affinity)
        storage := stack :: s.storage}

def createPrepare (s : State) (c : Nat) : Outcome :=
  match (s.cpus c).stage with
  | .creating h stack affinity =>
    .moved {s with
      cpus := s.atStage c (.created h)
      threads := put s.threads h {s.threads h with stack := stack,cpuAffinity := affinity,context := ⟨stack⟩}}
  | _ => .blocked

def enqueueThread (s : State) (c : Nat) : Outcome :=
  match (s.cpus c).stage with
  | .created h =>
    match s.readyQueue.pushBack h with
    | none => .asserted "Ready queue full"
    | some queue => .moved {s with readyQueue := queue,cpus := s.atStage c .client}
  | _ => .blocked

def idlePoll (s : State) (c : Nat) : Outcome :=
  if s.cpus c = ⟨none,.client⟩ then
    match rotate (eligible s c) s.readyQueue.size none s.readyQueue with
    | none => .asserted "pop_front on empty Ring_Buffer"
    | some (none,queue) => .moved {s with readyQueue := queue}
    | some (some h,queue) => .moved {s with readyQueue := queue,cpus := s.atStage c (.held h)}
  else .blocked

def idleDispatch (s : State) (c : Nat) : Outcome :=
  match (s.cpus c).stage with
  | .held h =>
    if (s.threads h).state ≠ .ready then .asserted "Dequeued thread is not ready"
    else .moved {s with
      threads := s.marked h .running
      currentThreads := put s.currentThreads c (some h)
      cpus := s.atStage c (.dispatched h)}
  | _ => .blocked

def contextLoad (s : State) (c : Nat) : Outcome :=
  match (s.cpus c).stage with
  | .dispatched h => .moved {s with cpus := put s.cpus c ⟨some ⟨h,(s.threads h).context.stack⟩,.client⟩}
  | _ => .blocked

-- yield and finish_current work on the entry in current_threads.
def yieldCurrent (s : State) (c : Nat) : Outcome :=
  if (s.cpus c).seat = none ∨ (s.cpus c).stage ≠ .client then .blocked
  else
    match s.currentThreads c with
    | none => .asserted "current != nullptr"
    | some h =>
      if (s.threads h).state ≠ .running then .asserted "current is not RUNNING"
      else
        match s.readyQueue.pushBack h with
        | none => .asserted "!ready_queue.full()"
        | some queue =>
          .moved {s with
            threads := s.marked h .ready
            readyQueue := queue
            currentThreads := put s.currentThreads c none
            cpus := s.atStage c (.leaving h false)}

def finishCurrent (s : State) (c : Nat) : Outcome :=
  if (s.cpus c).seat = none ∨ (s.cpus c).stage ≠ .client then .blocked
  else
    match s.currentThreads c with
    | none => .asserted "No current thread even though there should be one"
    | some h => .moved {s with
      threads := s.marked h .done
      currentThreads := put s.currentThreads c none
      cpus := s.atStage c (.leaving h false)}

def contextSave (s : State) (c : Nat) : Outcome :=
  match s.cpus c with
  | ⟨some seat,.leaving h false⟩ =>
    .moved {s with
      threads := put s.threads h {s.threads h with context := ⟨seat.stack⟩}
      cpus := s.atStage c (.leaving h true)}
  | _ => .blocked

def contextRestore (s : State) (c : Nat) : Outcome :=
  match s.cpus c with
  | ⟨some seat,.leaving _ true⟩ => .moved {s with cpus := put s.cpus c ⟨none,.returned seat.thread⟩}
  | _ => .blocked

def abandoned (thread : Thread) : Bool := thread.state = .done && thread.detached

def idleObserve (s : State) (c : Nat) : Outcome :=
  match (s.cpus c).stage with
  | .returned h =>
    .moved {s with
      currentThreads := put s.currentThreads c none
      cpus := s.atStage c (if abandoned (s.threads h) then .claiming h else .client)}
  | _ => .blocked

def idleClaim (s : State) (c : Nat) : Outcome :=
  match (s.cpus c).stage with
  | .claiming h =>
    let s := if abandoned (s.threads h) then reclaim s h else s
    .moved {s with cpus := s.atStage c .client}
  | _ => .blocked

def detachThread (s : State) (c h : Nat) : Outcome :=
  if (s.cpus c).stage ≠ .client then .blocked
  else if threadMaxCount ≤ h then .asserted "Invalid thread handle"
  else if (s.threads h).state = .free then .asserted "Thread is already free"
  else if (s.threads h).state = .done then .asserted "Cannot detach completed thread"
  else if (s.threads h).detached then .asserted "Thread is already detached"
  else .moved {s with threads := put s.threads h {s.threads h with detached := true}}

-- One turn of join's loop. While the thread is not DONE the caller yields,
-- polls or pauses, which are actions of their own.
def joinAwait (s : State) (c h : Nat) : Outcome :=
  if (s.cpus c).stage ≠ .client then .blocked
  else if threadMaxCount ≤ h then .asserted "Invalid typed thread handle"
  else if (s.threads h).state = .done then .moved {s with cpus := s.atStage c (.joining h)}
  else .blocked

def joinReclaim (s : State) (c : Nat) : Outcome :=
  match (s.cpus c).stage with
  | .joining h =>
    if (s.threads h).state ≠ .done then .asserted "Thread is not done"
    else if (s.threads h).detached then .asserted "Cannot join detached thread"
    else .moved {reclaim s h with cpus := s.atStage c .client}
  | _ => .blocked

def execute (s : State) : Action → Outcome
  | .reserve c stack affinity => createReserve s c stack affinity
  | .prepare c => createPrepare s c
  | .enqueue c => enqueueThread s c
  | .poll c => idlePoll s c
  | .dispatch c => idleDispatch s c
  | .load c => contextLoad s c
  | .yield c => yieldCurrent s c
  | .finish c => finishCurrent s c
  | .save c => contextSave s c
  | .restore c => contextRestore s c
  | .observe c => idleObserve s c
  | .claim c => idleClaim s c
  | .detach c h => detachThread s c h
  | .await c h => joinAwait s c h
  | .join c => joinReclaim s c

def Step (s : State) (action : Action) (t : State) : Prop := execute s action = .moved t

-- What the rotation does to the queue, whatever its head position.
theorem rotate_found (chosen : Nat → Bool) {queue : RingBuffer Nat n} (kept rest : List Nat) (length : rest.length = queued)
    (order : queue.contents = rest ++ kept) :
    ∃ after, rotate chosen queued (some h) queue = some (some h,after) ∧ after.contents = kept ++ rest := by
  induction rest generalizing queued queue kept with
  | nil =>
    subst length
    exact ⟨queue,rfl,by simpa using order⟩
  | cons candidate rest ih =>
    subst length
    obtain ⟨front,popped⟩ : ∃ front, queue.popFront = some front := by
      cases empty : queue.popFront with
      | none =>
        have nothing := (RingBuffer.isEmpty_exact _).mp (RingBuffer.popFront_empty.mp empty)
        rw [nothing] at order
        cases order
      | some front => exact ⟨front,rfl⟩
    obtain ⟨element,smaller⟩ := front
    have shape := RingBuffer.contents_popFront popped
    rw [order,List.cons_append] at shape
    obtain ⟨rfl,tail⟩ := List.cons.inj shape
    obtain ⟨larger,pushed⟩ := RingBuffer.pushBack_after_pop popped candidate
    have grown := RingBuffer.contents_pushBack pushed
    rw [← tail,List.append_assoc] at grown
    obtain ⟨after,rotated,final⟩ := ih _ rfl grown
    refine ⟨after,?_,by rw [final,List.append_assoc]; rfl⟩
    rw [List.length_cons,rotate,popped]
    simp only [reduceCtorEq,false_and,if_false,pushed]
    exact rotated

theorem rotate_search (chosen : Nat → Bool) {queue : RingBuffer Nat n} (kept rest : List Nat) (length : rest.length = queued)
    (order : queue.contents = rest ++ kept) :
    ∃ after, rotate chosen queued none queue = some (rest.find? chosen,after) ∧
      after.contents = kept ++ rest.eraseP chosen := by
  induction rest generalizing queued queue kept with
  | nil =>
    subst length
    exact ⟨queue,rfl,by simpa using order⟩
  | cons candidate rest ih =>
    subst length
    obtain ⟨front,popped⟩ : ∃ front, queue.popFront = some front := by
      cases empty : queue.popFront with
      | none =>
        have nothing := (RingBuffer.isEmpty_exact _).mp (RingBuffer.popFront_empty.mp empty)
        rw [nothing] at order
        cases order
      | some front => exact ⟨front,rfl⟩
    obtain ⟨element,smaller⟩ := front
    have shape := RingBuffer.contents_popFront popped
    rw [order,List.cons_append] at shape
    obtain ⟨rfl,tail⟩ := List.cons.inj shape
    rw [List.length_cons,rotate,popped]
    by_cases wanted : chosen candidate = true
    · obtain ⟨after,rotated,final⟩ := rotate_found chosen (h:=candidate) kept rest rfl tail.symm
      refine ⟨after,?_,?_⟩
      · simp only [wanted,true_and,if_true,List.find?_cons_of_pos]
        exact rotated
      · rw [List.eraseP_cons_of_pos wanted]
        exact final
    · obtain ⟨larger,pushed⟩ := RingBuffer.pushBack_after_pop popped candidate
      have grown := RingBuffer.contents_pushBack pushed
      rw [← tail,List.append_assoc] at grown
      obtain ⟨after,rotated,final⟩ := ih _ rfl grown
      refine ⟨after,?_,?_⟩
      · simp only [wanted,pushed]
        rw [List.find?_cons_of_neg wanted]
        exact rotated
      · rw [List.eraseP_cons_of_neg wanted,final,List.append_assoc]
        rfl

theorem rotate_exact (queue : RingBuffer Nat n) (chosen : Nat → Bool) :
    ∃ after, rotate chosen queue.size none queue = some (queue.contents.find? chosen,after) ∧
      after.contents = queue.contents.eraseP chosen := by
  obtain ⟨after,rotated,final⟩ := rotate_search chosen [] queue.contents
    (RingBuffer.contents_length queue) (List.append_nil _).symm
  exact ⟨after,rotated,by simpa using final⟩


-- idle_poll takes the earliest queued thread the CPU may run and keeps the rest
-- in order; neither Ring_Buffer assertion can fail on the way.
theorem idle_poll_picks_first (s : State) (c : Nat) (idle : s.cpus c = ⟨none,.client⟩) : ∃ queue,
    (∃ h before after, s.readyQueue.contents = before ++ h :: after ∧ eligible s c h = true ∧
      (∀ other ∈ before, eligible s c other = false) ∧ queue.contents = before ++ after ∧
      idlePoll s c = .moved {s with readyQueue := queue,cpus := s.atStage c (.held h)}) ∨
    ((∀ h ∈ s.readyQueue.contents, eligible s c h = false) ∧ queue.contents = s.readyQueue.contents ∧
      idlePoll s c = .moved {s with readyQueue := queue}) := by
  obtain ⟨queue,rotated,contents⟩ := rotate_exact s.readyQueue (eligible s c)
  refine ⟨queue,?_⟩
  have polled : idlePoll s c = match s.readyQueue.contents.find? (eligible s c) with
      | none => .moved {s with readyQueue := queue}
      | some h => .moved {s with readyQueue := queue,cpus := s.atStage c (.held h)} := by
    rw [idlePoll,if_pos idle,rotated]
    cases s.readyQueue.contents.find? (eligible s c) <;> rfl
  cases found : s.readyQueue.contents.find? (eligible s c) with
  | none =>
    rw [found] at polled
    have nobody : ∀ h ∈ s.readyQueue.contents, ¬eligible s c h = true := List.find?_eq_none.mp found
    refine .inr ⟨fun h queued => Bool.eq_false_iff.mpr (nobody h queued),?_,polled⟩
    rw [contents,List.eraseP_of_forall_not nobody]
  | some h =>
    rw [found] at polled
    obtain ⟨wanted,before,after,split,passed⟩ := List.find?_eq_some_iff_append.mp found
    have skipped : ∀ other ∈ before, ¬eligible s c other = true :=
      fun other queued => by simpa using passed other queued
    refine .inl ⟨h,before,after,split,wanted,fun other queued => Bool.eq_false_iff.mpr (skipped other queued),?_,polled⟩
    rw [contents,split,List.eraseP_append_right _ skipped,List.eraseP_cons_of_pos wanted]

-- Thread 3 is bound to CPU 0 and queued before thread 4.
def boundQueue : State := {initialState with
  threads := fun h => {Thread.init with cpuAffinity := if h = 3 then some 0 else none}
  readyQueue := ⟨fun i => if i = 5 then 3 else 4,5,7,2,by decide,by decide,by decide⟩}

theorem idle_poll_picks_first_bound : ∃ queue, queue.contents = [3] ∧
    idlePoll boundQueue 1 = .moved {boundQueue with readyQueue := queue,cpus := boundQueue.atStage 1 (.held 4)} := by
  obtain ⟨queue,⟨h,before,after,split,wanted,_,rest,polled⟩ | ⟨nobody,_⟩⟩ := idle_poll_picks_first boundQueue 1 rfl
  · have order : [3,4] = before ++ h :: after := split
    rcases before with _ | ⟨first,_ | ⟨second,before⟩⟩
    · have head : 3 = h := (List.cons.inj order).1
      subst head
      exact absurd wanted (by decide)
    · have tail : [4] = h :: after := (List.cons.inj order).2
      have first_eq : 3 = first := (List.cons.inj order).1
      obtain ⟨next,last⟩ := List.cons.inj tail
      subst first_eq next last
      exact ⟨queue,rest,polled⟩
    · simp at order
  · exact absurd (nobody 4 (by decide)) (by decide)

end Scheduler
