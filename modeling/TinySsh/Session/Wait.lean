import TinySsh.Ui.Deadlock
import TinySsh.Session.Relay

/-!
# Waiting for the driver

The owner of a handle that awaits the driver task (`SessionHandle::wait`) neither sends nor receives meanwhile. The
driver takes a bounded number of steps for what is queued and what arrives; it then has ended, or it waits for an input
or for the remote, or the event channel is full, and then `wait` never returns (`run_waits`).
-/

namespace TinySsh

open Driver

/-! ## Work that is left -/

/-- The steps that an `await` may lead to before the driver waits for something new, those for its events included. -/
def Pc.work : Pc → Nat
  | .send _ ok err => 2 + max ok.work err.work
  | .disconnect next => 1 + next.work
  | .connect => 12
  | .openShell => 9
  | .select => 6
  | .write _ => 8
  | .resize _ _ => 9
  | .close => 6
  | .done => 0

/-- The steps that are left in the session. -/
def Pipe.work (p : Pipe) : Nat := p.pc.work + 4 * p.input.length + 3 * p.remote.length + p.events.length

theorem Driver.work_moves {pc pc' : Pc} {io : Io} (hm : Moves pc io pc') :
    pc'.work + (sentEvent io).toList.length + 1 ≤
      pc.work + 4 * (takenInput io).toList.length + 3 * (takenMsg io).toList.length := by
  cases hm with
  | send =>
    simp only [Pc.work, sentEvent, takenInput, takenMsg, Option.toList_some, Option.toList_none, List.length_cons,
      List.length_nil]
    omega
  | disconnected =>
    simp only [Pc.work, sentEvent, takenInput, takenMsg, Option.toList_none, List.length_nil]
    omega
  | input cmd => rcases cmd with _ | _ | _ | _ <;> exact Nat.le_of_ble_eq_true rfl
  | message msg =>
    have hr := received_onMsg msg
    generalize onMsg msg = q at hr ⊢
    cases hr <;> exact Nat.le_of_ble_eq_true rfl
  | _ => exact Nat.le_of_ble_eq_true rfl

/-- **A step of the driver uses up work.** -/
theorem Pipe.work_drv {p p' : Pipe} {io : Io} (hs : p.step (.drv io) = some p') : p'.work < p.work := by
  have hm := work_moves (Pipe.moves_of_pipe hs)
  obtain ⟨-, hst⟩ := Pipe.stepped_of_step hs
  cases hst with
  | drv hpc hq =>
    obtain ⟨hin, hrem, hev, -⟩ := hq.flow
    have hin := congrArg List.length hin
    have hrem := congrArg List.length hrem
    have hev := congrArg List.length hev
    rw [List.length_append] at hin hrem hev
    dsimp only at hm
    simp only [Pipe.work]
    omega

/-! ## At rest -/

/-- The driver waits for the first input or message. -/
structure Pipe.Starved (p : Pipe) : Prop where
  pc : p.pc = .select
  input : p.input = []
  remote : p.remote = []
  open' : p.ended = false

/-- Only the drop of the handle aborts the driver. -/
theorem Pipe.aborted_of_step {p p' : Pipe} {act : Act} (hs : p.step act = some p') (hact : act ≠ .drop) :
    p'.aborted = false := by
  obtain ⟨hno, hst⟩ := Pipe.stepped_of_step hs
  cases hst with
  | drv hpc hq => cases hq <;> exact hno
  | drop => exact absurd rfl hact
  | _ => exact hno

/-- A driver that takes no step is done, or waits for room, or waits for the first input or message. -/
theorem Pipe.rests {p : Pipe} (hab : p.aborted = false) (hle : p.events.length ≤ eventCap)
    (h : ∀ io, p.step (.drv io) = none) : p.pc = .done ∨ p.sendBlocked = true ∨ p.Starved := by
  have hstep : ∀ io, p.drive io = none := fun io => by simpa [Pipe.step, hab] using h io
  -- a call always returns
  have hcall : ∀ io pc, Driver.step p.pc io = some pc → p.queues io = some p → False := fun io pc hpc hq => by
    have hnone := hstep io
    rw [Pipe.drive, hpc, hq] at hnone
    cases hnone
  cases hpc : p.pc with
  | done => exact .inl rfl
  | send ev ok err =>
    refine .inr (.inl ?_)
    have hnone := hstep (.send ev true)
    rw [Pipe.drive, hpc] at hnone
    by_cases hlt : p.events.length < eventCap
    · simp [Driver.step, Pipe.queues, hlt] at hnone
    · simp only [Pipe.sendBlocked, hpc, decide_eq_true_eq]
      omega
  | select =>
    refine .inr (.inr ?_)
    have hrecv := hstep (.recv p.input.head?)
    have hwait := hstep (.wait p.remote.head?)
    rw [Pipe.drive, hpc] at hrecv hwait
    rcases hin : p.input with _ | ⟨cmd, input⟩
    · rcases hrem : p.remote with _ | ⟨m, remote⟩
      · cases hend : p.ended with
        | false => exact ⟨hpc, hin, hrem, hend⟩
        | true => simp [Driver.step, Pipe.queues, hrem, hend] at hwait
      · simp [Driver.step, Pipe.queues, hrem] at hwait
    · simp [Driver.step, Pipe.queues, hin] at hrecv
  | connect => exact (hcall (.connect (.ok ())) _ (by rw [hpc]; rfl) rfl).elim
  | openShell => exact (hcall (.openShell (.ok ())) _ (by rw [hpc]; rfl) rfl).elim
  | write data => exact (hcall (.write data (.ok ())) .select (by simp [hpc, Driver.step]) rfl).elim
  | resize cols rows => exact (hcall (.resize cols rows (.ok ())) .select (by simp [hpc, Driver.step]) rfl).elim
  | close => exact (hcall (.close (.ok ())) _ (by rw [hpc]; rfl) rfl).elim
  | disconnect next => exact (hcall (.disconnect (.ok ())) _ (by rw [hpc]; rfl) rfl).elim

namespace Pipe

variable {p p' : Pipe} {l k : List Act} {a : Act} {io : Io}

theorem not_drv_of_starved (h : p.Starved) : p.step (.drv io) ≠ some p' := by
  intro hs
  cases (stepped_of_step hs).2 with
  | drv hpc hq =>
    rw [h.pc] at hpc
    cases hq with
    | send => cases hpc
    | call hsend hrecv hwait =>
      cases io with
      | recv cmd => exact hrecv cmd rfl
      | wait msg => exact hwait msg rfl
      | _ => cases hpc
    | recv hin => rw [h.input] at hin; cases hin
    | wait hrem => rw [h.remote] at hrem; cases hrem
    | waitEnd _ hend => rw [h.open'] at hend; cases hend

theorem not_drv_of_done (h : p.pc = .done) : p.step (.drv io) ≠ some p' := by
  intro hs
  cases (stepped_of_step hs).2 with
  | drv hpc =>
    rw [h] at hpc
    cases io <;> cases hpc

theorem rests_iff (hab : p.aborted = false) (hle : p.events.length ≤ eventCap) :
    (∀ io, p.step (.drv io) = none) ↔ p.pc = .done ∨ p.sendBlocked = true ∨ p.Starved := by
  refine ⟨rests hab hle, fun h io => ?_⟩
  by_contra hne
  obtain ⟨p', hs⟩ := Option.ne_none_iff_exists'.1 hne
  rcases h with h | h | h
  · exact not_drv_of_done h hs
  · exact System.not_drv_of_sendBlocked h hs
  · exact not_drv_of_starved h hs

end Pipe

/-! ## The owner waits -/

/-- A step while the owner of the handle awaits the driver. -/
def Act.duringWait : Act → Bool
  | .drv _ | .arrive _ | .hangup => true
  | _ => false

def Act.isDrv : Act → Bool
  | .drv _ => true
  | _ => false

namespace Pipe

variable {p p' : Pipe} {l k : List Act} {a : Act}

theorem work_step (ha : a.isDrv = false) (hs : p.step a = some p') : p'.work ≤ p.work + 4 := by
  cases (stepped_of_step hs).2 with
  | drv => cases ha
  | pop h =>
    simp only [work, h, List.length_cons]
    omega
  | push | arrive =>
    simp only [work, List.length_append, List.length_cons, List.length_nil]
    omega
  | hangup | drop => exact Nat.le_add_right _ _

theorem work_isDrv (ha : a.isDrv = true) (hs : p.step a = some p') : p'.work < p.work := by
  cases a with
  | drv => exact work_drv hs
  | _ => cases ha

/-- What is sent stays in the channel. -/
theorem waits_step (ha : a.duringWait = true) (hs : p.step a = some p') :
    p'.aborted = false ∧ p'.events = p.events ++ sent a.io.toList := by
  refine ⟨aborted_of_step hs (by rintro rfl; cases ha), ?_⟩
  cases (stepped_of_step hs).2 with
  | @drv io pc q hpc hq =>
    have hsent : sent [io] = (sentEvent io).toList := sent_concat [] io
    rw [hq.flow.2.2.1, Act.io, Option.toList_some, hsent]
  | arrive | hangup => exact (List.append_nil _).symm
  | _ => cases ha

theorem waits_run (hlive : p.aborted = false) (hk : ∀ a ∈ k, a.duringWait = true) (hr : Lts.run step p k = some p') :
    p'.aborted = false ∧ p'.events = p.events ++ sent (ios k) :=
  Lts.run_trace (Q := fun a : Act => a.duringWait = true)
    (I := fun k (q : Pipe) => q.aborted = false ∧ q.events = p.events ++ sent (ios k))
    (fun hI ha hs => by
      obtain ⟨hno, hev⟩ := waits_step ha hs
      rw [ios_concat, sent_append, ← List.append_assoc, ← hI.2]
      exact ⟨hno, hev⟩)
    ⟨hlive, (List.append_nil _).symm⟩ hk hr

/-- A driver that waits for room does so for good. -/
theorem blocked_step (h : p.sendBlocked = true) (ha : a.duringWait = true) (hs : p.step a = some p') :
    p'.sendBlocked = true := by
  cases (stepped_of_step hs).2 with
  | drv => exact absurd hs (System.not_drv_of_sendBlocked h)
  | arrive | hangup => exact h
  | _ => cases ha

/-- **What becomes of a `wait`**, from any state that is reached: the events of the driver stay in the channel, which
holds so many and no more; the driver takes a bounded number of steps, after which it is done, or starved, or blocked;
and blocked it never ends. -/
theorem run_waits (h : Lts.run step {} l = some p) (hlive : p.aborted = false)
    (hk : ∀ a ∈ k, a.duringWait = true) (hr : Lts.run step p k = some p') :
    p'.events = p.events ++ sent (ios k) ∧ p'.events.length ≤ eventCap ∧
    k.countP Act.isDrv + p'.work ≤ p.work + 4 * k.countP (fun a => !a.isDrv) ∧
    ((∀ io, p'.step (.drv io) = none) ↔ p'.pc = .done ∨ p'.sendBlocked = true ∨ p'.Starved) ∧
    (p'.sendBlocked = true → ∀ (k' : List Act) (p'' : Pipe), (∀ a ∈ k', a.duringWait = true) →
      Lts.run step p' k' = some p'' → p''.pc ≠ .done) := by
  obtain ⟨hno, hevents⟩ := waits_run hlive hk hr
  have hle := (run_flow (Lts.run_trans h hr)).eventsLe
  refine ⟨hevents, hle, ?_, rests_iff hno hle, fun hb k' p'' hk' hr' => ?_⟩
  · exact Lts.run_work (I := fun _ => True) (fun _ _ => trivial) (fun _ ha hs => work_isDrv ha hs)
      (fun _ ha hs => work_step ha hs) trivial hr
  · exact System.not_done_of_sendBlocked (Lts.run_trace (Q := fun a : Act => a.duringWait = true)
      (I := fun _ (q : Pipe) => q.sendBlocked = true) (fun hI ha hs => blocked_step hI ha hs) hb hk' hr')

/-- The remote closes the channel, and the driver ends. -/
def awaited : List Act :=
  [.arrive .close, .drv (.wait (some .close)), .drv (.disconnect (.ok ())), .drv (.send (.stateChanged .closed) true),
   .drv (.send .closed true)]

theorem waits_awaited : ∃ p p', Lts.run step {} opening = some p ∧ Lts.run step p awaited = some p' ∧
    p'.pc = .done ∧ p'.events = p.events ++ [.stateChanged .closed, .closed] := by
  have hp : ((Lts.run step {} opening).map fun p => p.aborted) = some false := by decide +kernel
  obtain ⟨p, hp, hlive⟩ := Option.map_eq_some_iff.1 hp
  have hr : ((Lts.run step {} (opening ++ awaited)).map fun p => p.pc) = some .done := by decide +kernel
  obtain ⟨p', hr, hdone⟩ := Option.map_eq_some_iff.1 hr
  obtain ⟨q, hq, hr⟩ := Lts.run_append_some hr
  obtain rfl : p = q := Option.some.inj (hp.symm.trans hq)
  obtain ⟨hevents, -⟩ := run_waits hp hlive (by decide) hr
  exact ⟨p, p', hp, hr, hdone, hevents⟩

end Pipe

end TinySsh
