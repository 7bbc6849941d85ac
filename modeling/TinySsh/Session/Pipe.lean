import TinySsh.Session.Driver

/-!
# The driver and its channels

`Pipe` is the driver task between its three queues: the inputs from the handle (capacity 64), the messages of the
remote channel, and the events for the handle (capacity 256). A step is one of the driver, one of the handle's owner
at the other end of a channel, one of the remote, or the drop of the handle, which aborts the task.

Every queue is first in, first out and bounded (`run_flow`), and a run of the pipe is a run of the driver
(`run_driver`).
-/

namespace TinySsh

/-! ## The model -/

/-- `mpsc::channel(64)` of `spawn`. -/
def inputCap : Nat := 64

/-- `mpsc::channel(256)` of `spawn`. -/
def eventCap : Nat := 256

structure Pipe where
  pc : Pc := Driver.driverTask
  input : List SessionInput := []
  /-- The messages that arrived and that the channel has not yielded yet. -/
  remote : List ChannelMsg := []
  /-- No more messages arrive. -/
  ended : Bool := false
  events : List SessionEvent := []
  /-- The handle was dropped. -/
  aborted : Bool := false

/-- A step of the driver, or of one of the parties around it. -/
inductive Act
  | drv (io : Io)
  /-- A send of the handle completes. -/
  | push (cmd : SessionInput)
  /-- The handle receives an event. -/
  | pop (ev : SessionEvent)
  | arrive (msg : ChannelMsg)
  | hangup
  | drop

namespace Pipe

/-- What a completed `await` of the driver does to the queues. The handle holds both other ends until it is dropped,
so a send to it cannot fail and its channel does not close. -/
def queues (p : Pipe) : Io → Option Pipe
  | .send ev delivered =>
    if delivered ∧ p.events.length < eventCap then some { p with events := p.events ++ [ev] } else none
  | .recv cmd =>
    match p.input with
    | [] => none
    | c :: input => if cmd = some c then some { p with input } else none
  | .wait msg =>
    match p.remote with
    | [] => if msg = none ∧ p.ended then some p else none
    | m :: remote => if msg = some m then some { p with remote } else none
  | _ => some p

/-- A step of the driver. -/
def drive (p : Pipe) (io : Io) : Option Pipe := do
  let pc ← Driver.step p.pc io
  let p ← p.queues io
  some { p with pc }

def step (p : Pipe) (a : Act) : Option Pipe :=
  if p.aborted then none
  else
    match a with
    | .drv io => p.drive io
    | .push cmd =>
      -- the task holds the other end of the channel until it is done
      if p.pc ≠ .done ∧ p.input.length < inputCap then some { p with input := p.input ++ [cmd] } else none
    | .pop ev =>
      match p.events with
      | [] => none
      | e :: events => if e = ev then some { p with events } else none
    | .arrive msg => if p.ended then none else some { p with remote := p.remote ++ [msg] }
    | .hangup => some { p with ended := true }
    | .drop => some { p with aborted := true }

end Pipe

/-! ## What a run says -/

/-- The label of the driver. -/
def Act.io : Act → Option Io
  | .drv io => some io
  | _ => none

def Act.pushedInput : Act → Option SessionInput
  | .push cmd => some cmd
  | _ => none

def Act.poppedEvent : Act → Option SessionEvent
  | .pop ev => some ev
  | _ => none

def Act.arrivedMsg : Act → Option ChannelMsg
  | .arrive msg => some msg
  | _ => none

/-- The labels of the driver along a run. -/
def ios (l : List Act) : List Io := l.filterMap Act.io

/-- The inputs sent along a run. -/
def pushed (l : List Act) : List SessionInput := l.filterMap Act.pushedInput

/-- The events received along a run. -/
def popped (l : List Act) : List SessionEvent := l.filterMap Act.poppedEvent

/-- The messages that arrive along a run. -/
def arrived (l : List Act) : List ChannelMsg := l.filterMap Act.arrivedMsg

namespace Driver

/-- The input that a label takes. -/
def takenInput : Io → Option SessionInput
  | .recv cmd => cmd
  | _ => none

/-- The message that a label takes. -/
def takenMsg : Io → Option ChannelMsg
  | .wait msg => msg
  | _ => none

/-- The inputs that the driver takes along a run. -/
def taken (l : List Io) : List SessionInput := l.filterMap takenInput

/-- The messages that the driver takes along a run. -/
def consumed (l : List Io) : List ChannelMsg := l.filterMap takenMsg

end Driver

section Labels

theorem filterMap_concat {α β : Type} (f : α → Option β) (l : List α) (a : α) :
    (l ++ [a]).filterMap f = l.filterMap f ++ (f a).toList := by
  cases h : f a <;> simp [h]

variable {l : List Act}

theorem mem_pushed {cmd : SessionInput} : cmd ∈ pushed l ↔ .push cmd ∈ l := by
  refine ⟨fun h => ?_, fun h => List.mem_filterMap.2 ⟨_, h, rfl⟩⟩
  obtain ⟨a, ha, hpush⟩ := List.mem_filterMap.1 h
  cases a <;> cases hpush
  exact ha

theorem mem_arrived {msg : ChannelMsg} : msg ∈ arrived l ↔ .arrive msg ∈ l := by
  refine ⟨fun h => ?_, fun h => List.mem_filterMap.2 ⟨_, h, rfl⟩⟩
  obtain ⟨a, ha, harr⟩ := List.mem_filterMap.1 h
  cases a <;> cases harr
  exact ha

variable (l l' : List Act) (a : Act)

theorem ios_append : ios (l ++ l') = ios l ++ ios l' := List.filterMap_append

theorem arrived_append : arrived (l ++ l') = arrived l ++ arrived l' := List.filterMap_append

theorem pushed_concat : pushed (l ++ [a]) = pushed l ++ a.pushedInput.toList := filterMap_concat _ _ _

theorem popped_concat : popped (l ++ [a]) = popped l ++ a.poppedEvent.toList := filterMap_concat _ _ _

theorem arrived_concat : arrived (l ++ [a]) = arrived l ++ a.arrivedMsg.toList := filterMap_concat _ _ _

theorem ios_concat : ios (l ++ [a]) = ios l ++ a.io.toList := filterMap_concat _ _ _

variable (k k' : List Io) (io : Io)

theorem taken_concat : Driver.taken (k ++ [io]) = Driver.taken k ++ (Driver.takenInput io).toList :=
  filterMap_concat _ _ _

theorem consumed_concat : Driver.consumed (k ++ [io]) = Driver.consumed k ++ (Driver.takenMsg io).toList :=
  filterMap_concat _ _ _

theorem sent_concat : Driver.sent (k ++ [io]) = Driver.sent k ++ (Driver.sentEvent io).toList :=
  filterMap_concat _ _ _

end Labels

namespace Pipe

open Driver

variable {p p' : Pipe} {l : List Act} {a : Act} {io : Io}

theorem drive_some (h : p.drive io = some p') :
    ∃ pc q, Driver.step p.pc io = some pc ∧ p.queues io = some q ∧ p' = { q with pc } := by
  obtain ⟨pc, hpc, h⟩ := Option.bind_eq_some_iff.1 h
  obtain ⟨q, hq, h⟩ := Option.bind_eq_some_iff.1 h
  cases h
  exact ⟨pc, q, hpc, hq, rfl⟩

/-- What a completed `await` can do to the queues. -/
inductive Queued (p : Pipe) : Io → Pipe → Prop
  | send {ev : SessionEvent} (h : p.events.length < eventCap) :
      Queued p (.send ev true) { p with events := p.events ++ [ev] }
  | recv {c : SessionInput} {input : List SessionInput} (h : p.input = c :: input) :
      Queued p (.recv (some c)) { p with input }
  | wait {m : ChannelMsg} {remote : List ChannelMsg} (h : p.remote = m :: remote) :
      Queued p (.wait (some m)) { p with remote }
  | waitEnd (h : p.remote = []) (he : p.ended = true) : Queued p (.wait none) p
  | call {io : Io} (hsend : ∀ ev d, io ≠ .send ev d) (hrecv : ∀ cmd, io ≠ .recv cmd) (hwait : ∀ msg, io ≠ .wait msg) :
      Queued p io p

theorem queued_of_queues {q : Pipe} (h : p.queues io = some q) : Queued p io q := by
  unfold queues at h
  cases io with
  | send ev delivered =>
    simp only [Option.ite_none_right_eq_some, Option.some.injEq] at h
    obtain ⟨⟨rfl, hcap⟩, rfl⟩ := h
    exact .send hcap
  | recv cmd =>
    rcases hin : p.input with _ | ⟨c, input⟩ <;> simp only [hin, Option.ite_none_right_eq_some, Option.some.injEq,
      reduceCtorEq] at h
    obtain ⟨rfl, rfl⟩ := h
    exact .recv hin
  | wait msg =>
    rcases hrem : p.remote with _ | ⟨m, remote⟩ <;> simp only [hrem, Option.ite_none_right_eq_some,
      Option.some.injEq] at h
    · obtain ⟨⟨rfl, he⟩, rfl⟩ := h
      exact .waitEnd hrem he
    · obtain ⟨rfl, rfl⟩ := h
      exact .wait hrem
  | _ => cases h; exact .call (fun _ _ h => nomatch h) (fun _ h => nomatch h) (fun _ h => nomatch h)

/-- What a step can do. -/
inductive Stepped (p : Pipe) : Act → Pipe → Prop
  | drv {io : Io} {pc : Pc} {q : Pipe} (hpc : Driver.step p.pc io = some pc) (hq : Queued p io q) :
      Stepped p (.drv io) { q with pc }
  | push {cmd : SessionInput} (hpc : p.pc ≠ .done) (h : p.input.length < inputCap) :
      Stepped p (.push cmd) { p with input := p.input ++ [cmd] }
  | pop {ev : SessionEvent} {events : List SessionEvent} (h : p.events = ev :: events) :
      Stepped p (.pop ev) { p with events }
  | arrive {msg : ChannelMsg} (h : p.ended = false) : Stepped p (.arrive msg) { p with remote := p.remote ++ [msg] }
  | hangup : Stepped p .hangup { p with ended := true }
  | drop : Stepped p .drop { p with aborted := true }

theorem stepped_of_step (h : p.step a = some p') : p.aborted = false ∧ Stepped p a p' := by
  unfold step at h
  simp only [Option.ite_none_left_eq_some, Bool.not_eq_true] at h
  obtain ⟨habort, h⟩ := h
  refine ⟨habort, ?_⟩
  cases a with
  | drv io =>
    obtain ⟨pc, q, hpc, hq, rfl⟩ := drive_some h
    exact .drv hpc (queued_of_queues hq)
  | push cmd =>
    simp only [Option.ite_none_right_eq_some, Option.some.injEq] at h
    obtain ⟨⟨hpc, hcap⟩, rfl⟩ := h
    exact .push hpc hcap
  | pop ev =>
    rcases hev : p.events with _ | ⟨e, events⟩ <;> simp only [hev, Option.ite_none_right_eq_some, Option.some.injEq,
      reduceCtorEq] at h
    obtain ⟨rfl, rfl⟩ := h
    exact .pop hev
  | arrive msg =>
    simp only [Option.ite_none_left_eq_some, Bool.not_eq_true, Option.some.injEq] at h
    obtain ⟨hend, rfl⟩ := h
    exact .arrive hend
  | hangup => cases h; exact .hangup
  | drop => cases h; exact .drop

/-! ## First in, first out -/

/-- What went into a queue came out of it or is still there, and no queue is over its capacity. -/
structure Flow (l : List Act) (p : Pipe) : Prop where
  input : pushed l = taken (ios l) ++ p.input
  remote : arrived l = consumed (ios l) ++ p.remote
  events : sent (ios l) = popped l ++ p.events
  inputLe : p.input.length ≤ inputCap
  eventsLe : p.events.length ≤ eventCap

/-- What a completed `await` takes from a queue was first in it, and what it sends comes last. -/
theorem Queued.flow {q : Pipe} (h : Queued p io q) : p.input = (takenInput io).toList ++ q.input ∧
    p.remote = (takenMsg io).toList ++ q.remote ∧ q.events = p.events ++ (sentEvent io).toList ∧
    (p.events.length ≤ eventCap → q.events.length ≤ eventCap) := by
  cases h with
  | send h => exact ⟨rfl, rfl, rfl, fun _ => by rw [List.length_append]; exact h⟩
  | recv h => exact ⟨h, rfl, (List.append_nil _).symm, id⟩
  | wait h => exact ⟨rfl, h, (List.append_nil _).symm, id⟩
  | waitEnd => exact ⟨rfl, rfl, (List.append_nil _).symm, id⟩
  | call hsend hrecv hwait =>
    cases io with
    | send ev d => exact absurd rfl (hsend ev d)
    | recv cmd => exact absurd rfl (hrecv cmd)
    | wait msg => exact absurd rfl (hwait msg)
    | _ => exact ⟨rfl, rfl, (List.append_nil _).symm, id⟩

theorem flow_step (h : Flow l p) (hs : p.step a = some p') : Flow (l ++ [a]) p' := by
  obtain ⟨hin, hrem, hev, hinLe, hevLe⟩ := h
  obtain ⟨-, hs⟩ := stepped_of_step hs
  cases hs
  all_goals
    constructor <;> simp only [pushed_concat, popped_concat, arrived_concat, ios_concat, Act.pushedInput, Act.io,
      Act.poppedEvent, Act.arrivedMsg, Option.toList_some, Option.toList_none, List.append_nil, taken_concat,
      consumed_concat, sent_concat]
  case drv.input hq => rw [hin, hq.flow.1, List.append_assoc]
  case drv.remote hq => rw [hrem, hq.flow.2.1, List.append_assoc]
  case drv.events hq => rw [hev, hq.flow.2.2.1, List.append_assoc]
  case drv.inputLe hq => rw [hq.flow.1, List.length_append] at hinLe; omega
  case drv.eventsLe hq => exact hq.flow.2.2.2 hevLe
  case push.input => rw [hin, List.append_assoc]
  case push.inputLe => simp; omega
  case pop.events hq => rw [hev, hq, List.append_assoc]; rfl
  case pop.eventsLe hq => simp [hq] at hevLe; omega
  case arrive.remote => rw [hrem, List.append_assoc]
  all_goals assumption

/-- **Along every run the queues are first in, first out and bounded.** -/
theorem run_flow (h : Lts.run step {} l = some p) : Flow l p :=
  Lts.run_trace (Q := fun _ => True) (I := Flow) (fun h _ hs => flow_step h hs)
    ⟨rfl, rfl, rfl, Nat.zero_le _, Nat.zero_le _⟩ (fun _ _ => trivial) h

/-! ## The driver in the pipe -/

theorem pc_of_step (hs : p.step a = some p') : Lts.run Driver.step p.pc a.io.toList = some p'.pc := by
  obtain ⟨-, hs⟩ := stepped_of_step hs
  cases hs with
  | drv hpc hq => simp [Act.io, hpc]
  | _ => rfl

/-- **A run of the pipe is a run of the driver.** -/
theorem run_driver (h : Lts.run step p l = some p') : Lts.run Driver.step p.pc (ios l) = some p'.pc :=
  Lts.run_project Pipe.pc Act.io pc_of_step h

/-- No send of the driver fails, and its input does not close. -/
theorem io_of_step (hs : p.step (.drv io) = some p') : Delivered io ∧ io ≠ .recv none := by
  obtain ⟨-, hs⟩ := stepped_of_step hs
  cases hs with
  | @drv io pc q hpc hq =>
    cases hq with
    | call hsend hrecv hwait =>
      refine ⟨?_, hrecv none⟩
      cases io with
      | send ev d => exact absurd rfl (hsend ev d)
      | _ => trivial
    | send => exact ⟨rfl, fun h => nomatch h⟩
    | recv | wait | waitEnd => exact ⟨trivial, fun h => nomatch h⟩

end Pipe

end TinySsh
