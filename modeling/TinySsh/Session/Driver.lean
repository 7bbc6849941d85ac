import TinySsh.Lib.Lts
import TinySsh.Transport

/-!
# The session driver

`driver_task` and `io_loop` (`session.rs`) as an automaton. A control point (`Pc`) is what the task does from an
`await` on; a step completes that `await` and its label (`Io`) says how: the result of a call, the input or the
message received, whether an event was delivered. Labels are otherwise free here; the channels constrain them in
`Session/Pipe.lean`.
-/

namespace TinySsh

/-! ## Events and inputs -/

inductive SessionState
  | connecting | authenticated | shellOpen | closed
  | failed (msg : String)
deriving DecidableEq

inductive SessionEvent
  | stateChanged (s : SessionState)
  | output (bytes : List UInt8)
  | stderr (bytes : List UInt8)
  | exitStatus (status : Nat)
  | error (msg : String)
  | closed
deriving DecidableEq

inductive SessionInput
  | bytes (data : List UInt8)
  | resize (cols rows : Nat)
  | disconnect
deriving DecidableEq

/-! ## The automaton -/

/-- The control points of the driver task. -/
inductive Pc
  /-- `event_tx.send(ev).await`, and where the task goes when the event is delivered and when it is not. -/
  | send (ev : SessionEvent) (ok err : Pc)
  | connect
  | openShell
  /-- The `select!` of `io_loop`. -/
  | select
  | write (data : List UInt8)
  | resize (cols rows : Nat)
  | close
  /-- `client.disconnect().await` -/
  | disconnect (next : Pc)
  | done
deriving DecidableEq

/-- A completed `await`. -/
inductive Io
  | send (ev : SessionEvent) (delivered : Bool)
  | connect (r : Except SshError Unit)
  | openShell (r : Except SshError Unit)
  | recv (cmd : Option SessionInput)
  | wait (msg : Option ChannelMsg)
  | write (data : List UInt8) (r : Except SshError Unit)
  | resize (cols rows : Nat) (r : Except SshError Unit)
  | close (r : Except SshError Unit)
  | disconnect (r : Except SshError Unit)

namespace Driver

/-- `let _ = event_tx.send(ev).await` -/
def sendAnyway (ev : SessionEvent) (next : Pc) : Pc := .send ev next next

/-- The end of `driver_task` after `io_loop`. -/
def finish : Pc := .disconnect (sendAnyway (.stateChanged .closed) (sendAnyway .closed .done))

/-- The branch of `driver_task` for an error of `SshClient::connect`. -/
def connectFailed (msg : String) : Pc :=
  sendAnyway (.error msg) (sendAnyway (.stateChanged (.failed msg)) (sendAnyway .closed .done))

/-- The branch of `driver_task` for an error of `open_shell`. -/
def openFailed (msg : String) : Pc :=
  sendAnyway (.error msg) (sendAnyway (.stateChanged (.failed msg)) (.disconnect (sendAnyway .closed .done)))

/-- The input branch of `io_loop`. -/
def onInput : Option SessionInput → Pc
  | none => finish
  | some (.bytes data) => .write data
  | some (.resize cols rows) => .resize cols rows
  | some .disconnect => .close

/-- The remote branch of `io_loop`. -/
def onEvent : SshEvent → Pc
  | .data d => .send (.output d) .select finish
  | .stderr d => .send (.stderr d) .select finish
  | .eof => .select
  | .exitStatus s => .send (.exitStatus s) .select finish
  | .closed => finish

/-- One message of the remote branch: `next_event` skips some kinds. -/
def onMsg : Option ChannelMsg → Pc
  | none => finish
  | some m =>
    match m.event with
    | some ev => onEvent ev
    | none => .select

def driverTask : Pc := sendAnyway (.stateChanged .connecting) .connect

/-- One completed `await`. -/
def step : Pc → Io → Option Pc
  | .send ev ok err, .send ev' delivered => if ev = ev' then some (if delivered then ok else err) else none
  | .connect, .connect (.ok ()) => some (sendAnyway (.stateChanged .authenticated) .openShell)
  | .connect, .connect (.error e) => some (connectFailed e.toString)
  | .openShell, .openShell (.ok ()) => some (sendAnyway (.stateChanged .shellOpen) .select)
  | .openShell, .openShell (.error e) => some (openFailed e.toString)
  | .select, .recv cmd => some (onInput cmd)
  | .select, .wait msg => some (onMsg msg)
  | .write data, .write data' r =>
    if data = data' then
      match r with
      | .ok () => some .select
      | .error e => some (sendAnyway (.error e.toString) finish)
    else none
  | .resize cols rows, .resize cols' rows' r =>
    if cols = cols' ∧ rows = rows' then
      match r with
      | .ok () => some .select
      | .error e => some (sendAnyway (.error e.toString) .select)
    else none
  | .close, .close _ => some finish
  | .disconnect next, .disconnect _ => some next
  | _, _ => none

/-- The event a label sends. -/
@[simp] def sentEvent : Io → Option SessionEvent
  | .send ev _ => some ev
  | _ => none

/-- The events sent along a run. -/
def sent (l : List Io) : List SessionEvent := l.filterMap sentEvent

/-- The label does not report a dropped receiver. -/
def Delivered : Io → Prop
  | .send _ delivered => delivered = true
  | _ => True

/-! ## Steps while the receiver is alive -/

/-- What a step can be while the receiver is alive. -/
inductive Moves : Pc → Io → Pc → Prop
  | send (ev : SessionEvent) (ok err : Pc) : Moves (.send ev ok err) (.send ev true) ok
  | connected : Moves .connect (.connect (.ok ())) (sendAnyway (.stateChanged .authenticated) .openShell)
  | notConnected (e : SshError) : Moves .connect (.connect (.error e)) (connectFailed e.toString)
  | opened : Moves .openShell (.openShell (.ok ())) (sendAnyway (.stateChanged .shellOpen) .select)
  | notOpened (e : SshError) : Moves .openShell (.openShell (.error e)) (openFailed e.toString)
  | input (cmd : Option SessionInput) : Moves .select (.recv cmd) (onInput cmd)
  | message (msg : Option ChannelMsg) : Moves .select (.wait msg) (onMsg msg)
  | written (data : List UInt8) : Moves (.write data) (.write data (.ok ())) .select
  | notWritten (data : List UInt8) (e : SshError) :
      Moves (.write data) (.write data (.error e)) (sendAnyway (.error e.toString) finish)
  | resized (cols rows : Nat) : Moves (.resize cols rows) (.resize cols rows (.ok ())) .select
  | notResized (cols rows : Nat) (e : SshError) :
      Moves (.resize cols rows) (.resize cols rows (.error e)) (sendAnyway (.error e.toString) .select)
  | closed (r : Except SshError Unit) : Moves .close (.close r) finish
  | disconnected (next : Pc) (r : Except SshError Unit) : Moves (.disconnect next) (.disconnect r) next

variable {l : List Io} {pc pc' : Pc} {io : Io} {ev : SessionEvent} {ok err next : Pc}

theorem moves_of_step (hs : step pc io = some pc') (hd : Delivered io) : Moves pc io pc' := by
  unfold step at hs
  split at hs
  · rename_i delivered
    have hdel : delivered = true := hd
    simp only [Option.ite_none_right_eq_some, Option.some.injEq, hdel, if_true] at hs
    obtain ⟨rfl, rfl⟩ := hs
    subst hdel
    exact .send _ _ _
  case h_8 data data' r =>
    simp only [Option.ite_none_right_eq_some] at hs
    obtain ⟨rfl, hs⟩ := hs
    cases r <;> cases hs
    · exact .notWritten _ _
    · exact .written _
  case h_9 cols rows cols' rows' r =>
    simp only [Option.ite_none_right_eq_some] at hs
    obtain ⟨⟨rfl, rfl⟩, hs⟩ := hs
    cases r <;> cases hs
    · exact .notResized _ _ _
    · exact .resized _ _
  all_goals cases hs
  all_goals constructor

/-! ## Runs to the end -/

@[simp] theorem sent_nil : sent [] = [] := rfl

@[simp] theorem sent_append (l₁ l₂ : List Io) : sent (l₁ ++ l₂) = sent l₁ ++ sent l₂ := List.filterMap_append

/-- A finished task takes no step. -/
theorem run_done (h : Lts.run step .done l = some .done) : l = [] := by
  cases l with
  | nil => rfl
  | cons a l =>
    obtain ⟨pc, hpc, -⟩ := Lts.run_cons_some h
    cases a <;> simp [step] at hpc

/-- A task that is not finished completes an `await` first. -/
theorem run_await (h : Lts.run step pc l = some .done) (hne : pc ≠ .done) (hd : ∀ a ∈ l, Delivered a) :
    ∃ io pc' l', Moves pc io pc' ∧ sent l = (sentEvent io).toList ++ sent l' ∧ Lts.run step pc' l' = some .done ∧
      ∀ a ∈ l', Delivered a := by
  cases l with
  | nil => exact absurd (Option.some.inj h) hne
  | cons a l =>
    obtain ⟨pc', hpc, hl⟩ := Lts.run_cons_some h
    have hsent : sent (a :: l) = (sentEvent a).toList ++ sent l := by
      rw [sent, List.filterMap_cons]
      cases sentEvent a <;> rfl
    exact ⟨a, pc', l, moves_of_step hpc (hd a List.mem_cons_self), hsent, hl,
      fun b hb => hd b (List.mem_cons_of_mem _ hb)⟩

/-- While the receiver is alive, a send delivers its event and the task goes on. -/
theorem run_send (h : Lts.run step (.send ev ok err) l = some .done) (hd : ∀ a ∈ l, Delivered a) :
    ∃ l', sent l = ev :: sent l' ∧ Lts.run step ok l' = some .done ∧ ∀ a ∈ l', Delivered a := by
  obtain ⟨io, pc', l', hm, hl'⟩ := run_await h (fun h => nomatch h) hd
  cases hm
  exact ⟨l', hl'⟩

theorem run_disconnect (h : Lts.run step (.disconnect next) l = some .done) (hd : ∀ a ∈ l, Delivered a) :
    ∃ l', sent l = sent l' ∧ Lts.run step next l' = some .done ∧ (∀ a ∈ l', Delivered a) := by
  obtain ⟨io, pc', l', hm, hl'⟩ := run_await h (fun h => nomatch h) hd
  cases hm
  exact ⟨l', hl'⟩

end Driver

end TinySsh
