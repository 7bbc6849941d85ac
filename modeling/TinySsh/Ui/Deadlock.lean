import TinySsh.Ui

/-!
# Two tasks that wait for each other

The task of the user interface sends to the driver within a handler and the driver sends to it within an arm of its
loop; neither receives while it sends. With both queues full the two wait for each other, and for good
(`deadlocked_step`). A run avoids this exactly when neither task comes to wait for room while the other does
(`never_deadlocked_iff`).
-/

namespace TinySsh

open Text

/-- The driver waits for room in the event channel. -/
def Pipe.sendBlocked (p : Pipe) : Bool :=
  match p.pc with
  | .send _ _ _ => p.events.length = eventCap
  | _ => false

namespace System

variable {V : Type} {s s' : System V} {a : SysAct} {l : List SysAct}

/-- The task of the user interface waits for room in the input channel. -/
def sendBlocked (s : System V) : Bool :=
  match s.ui with
  | .sending _ _ => s.pipe.pc ≠ .done && s.pipe.input.length = inputCap
  | _ => false

/-- **Both tasks wait for room in the channel that the other one reads.** -/
def Deadlocked (s : System V) : Prop := s.sendBlocked = true ∧ s.pipe.sendBlocked = true

instance : Decidable s.Deadlocked := inferInstanceAs (Decidable (_ ∧ _))

/-- The `await` leaves the driver at a send. -/
def comesToSend (pc : Pc) (io : Io) : Bool :=
  match Driver.step pc io with
  | some (.send _ _ _) => true
  | _ => false

/-! ## The driver at a send -/

theorem not_done_of_sendBlocked {p : Pipe} (h : p.sendBlocked = true) : p.pc ≠ .done := fun hpc => by
  simp [Pipe.sendBlocked, hpc] at h

/-- A blocked driver takes no step. -/
theorem not_drv_of_sendBlocked {p p' : Pipe} {io : Io} (h : p.sendBlocked = true) : p.step (.drv io) ≠ some p' := by
  intro hs
  obtain ⟨-, hst⟩ := Pipe.stepped_of_step hs
  unfold Pipe.sendBlocked at h
  split at h
  · rename_i hpc
    rw [decide_eq_true_eq] at h
    cases hst with
    | drv hstep hq =>
      rw [hpc] at hstep
      cases hq with
      | send hcap => omega
      | call hsend =>
        cases io with
        | send ev d => exact hsend ev d rfl
        | _ => cases hstep
      | _ => cases hstep
  · cases h

/-- When the driver comes to a send, it has not taken an input. -/
theorem input_of_comesToSend {p p' : Pipe} {io : Io} (hs : p.step (.drv io) = some p')
    (h : comesToSend p.pc io = true) : p'.input = p.input := by
  obtain ⟨-, hst⟩ := Pipe.stepped_of_step hs
  cases hst with
  | drv hpc hq =>
    cases hq with
    | @recv c input hin =>
      -- the handlers of inputs start with a call, or end the loop
      exfalso
      unfold comesToSend at h
      generalize p.pc = pc at hpc h
      cases pc <;> first | (cases hpc; done) | skip
      cases c <;> cases h
    | _ => rfl

/-- The driver is blocked where it comes to a send with the queue full. -/
theorem sendBlocked_drv {p p' : Pipe} {io : Io} (hs : p.step (.drv io) = some p') : p'.sendBlocked = true ↔
    comesToSend p.pc io = true ∧ p.events.length + (Driver.sentEvent io).toList.length = eventCap := by
  obtain ⟨-, hst⟩ := Pipe.stepped_of_step hs
  cases hst with
  | @drv _ pc q hpc hq =>
    have hev : q.events.length = p.events.length + (Driver.sentEvent io).toList.length := by
      rw [hq.flow.2.2.1, List.length_append]
    simp only [Pipe.sendBlocked, comesToSend, hpc, ← hev]
    cases pc <;> simp

theorem not_deadlocked_of_ui (h : ∀ cmd after, s.ui ≠ .sending cmd after) : ¬s.Deadlocked := by
  rintro ⟨hui, -⟩
  unfold sendBlocked at hui
  split at hui
  · rename_i cmd after heq
    exact h cmd after heq
  · cases hui

theorem ui_resume (r : App V × Bool) : (s.resume r).ui = .returned ∨ (s.resume r).ui = .select := by
  unfold resume
  split
  · exact .inl rfl
  · exact .inr rfl

theorem not_deadlocked_resume (r : App V × Bool) : ¬(s.resume r).Deadlocked :=
  not_deadlocked_of_ui fun cmd after hui => by rcases ui_resume (s := s) r with h | h <;> rw [h] at hui <;> cases hui

/-- Coming to a send does not unblock the other task. -/
theorem sendBlocked_of_comesToSend {pipe : Pipe} {io : Io} (hs : s.pipe.step (.drv io) = some pipe)
    (h : comesToSend s.pipe.pc io = true) : { s with pipe }.sendBlocked = s.sendBlocked := by
  have hin := input_of_comesToSend hs h
  obtain ⟨-, hst⟩ := Pipe.stepped_of_step hs
  cases hst with
  | @drv _ pc q hpc hq =>
    -- neither control point is the last one
    have hdone : s.pipe.pc ≠ .done := fun hd => by rw [hd] at hpc; cases hpc
    have hdone' : pc ≠ .done := fun hd => by subst hd; simp [comesToSend, hpc] at h
    have hin' : q.input = s.pipe.input := hin
    simp [sendBlocked, hin', hdone, hdone']

variable [Vt V]

/-! ## Steps -/

/-- Handling the event sends something to the driver. -/
def handlerSends (s : System V) (ev : TermEvent) (env : Env) : Bool :=
  match handleTerminalEvent s.app s.history env ev with
  | some (_, _, some _) => true
  | _ => false

/-- The step does not bring a task to a send that the other one, waiting itself, would have to make room for: no
terminal event that sends is handled with 64 inputs queued while the driver waits, and the driver does not come to a
send with 256 events queued while the other task waits. -/
def KeepsMoving (s : System V) : SysAct → Prop
  | .handle ev env => s.pipe.input.length = inputCap → s.pipe.sendBlocked = true → s.handlerSends ev env = false
  | .drv io => s.sendBlocked = true → comesToSend s.pipe.pc io = true →
      s.pipe.events.length + (Driver.sentEvent io).toList.length ≠ eventCap
  | _ => True

instance (s : System V) : ∀ a, Decidable (s.KeepsMoving a)
  | .handle ev env => inferInstanceAs (Decidable (_ → _ → s.handlerSends ev env = false))
  | .drv _ => inferInstanceAs (Decidable (_ → _ → _ ≠ eventCap))
  | .typed _ | .sent _ | .detached _ | .receive _ | .streamEnd | .leave | .finalize | .drop | .arrive _ | .hangup =>
    inferInstanceAs (Decidable True)

/-- **A deadlock is for good.** -/
theorem deadlocked_step (h : s.Deadlocked) (hs : s.step a = some s') : s'.Deadlocked := by
  obtain ⟨hui, hdrv⟩ := h
  cases stepped_of_step hs with
  | typed => exact ⟨hui, hdrv⟩
  | sent hsending hp =>
    obtain ⟨-, hst⟩ := Pipe.stepped_of_step hp
    simp only [sendBlocked, hsending, Bool.and_eq_true, decide_eq_true_eq] at hui
    cases hst with
    | push hpc hcap => omega
  | detached _ hpc => exact absurd hpc (not_done_of_sendBlocked hdrv)
  | drv hp => exact absurd hp (not_drv_of_sendBlocked hdrv)
  | arrive hp | hangup hp =>
    obtain ⟨-, hst⟩ := Pipe.stepped_of_step hp
    cases hst
    exact ⟨hui, hdrv⟩
  | _ hsel => simp [sendBlocked, hsel] at hui

/-- **One step keeps the tasks out of the deadlock exactly when it keeps them moving.** -/
theorem deadlocked_iff (h : ¬s.Deadlocked) (hs : s.step a = some s') : ¬s'.Deadlocked ↔ s.KeepsMoving a := by
  cases stepped_of_step hs with
  | typed => exact iff_of_true h trivial
  | handled hui ht hh =>
    refine iff_of_true (not_deadlocked_of_ui fun _ _ he => ?_) fun _ _ => by simp [handlerSends, hh]
    have : UiPc.select = .sending _ _ := hui.symm.trans he
    cases this
  | sends hui ht hh =>
    simp only [KeepsMoving, handlerSends, hh, Bool.true_eq_false, imp_false, Deadlocked, sendBlocked]
    constructor
    · intro hno hfull hdrv
      exact hno ⟨by simp [hfull, not_done_of_sendBlocked hdrv], hdrv⟩
    · rintro hmove ⟨hfull, hdrv⟩
      simp only [Bool.and_eq_true, decide_eq_true_eq] at hfull
      exact hmove hfull.2 hdrv
  | drv hp =>
    simp only [KeepsMoving, Deadlocked, sendBlocked_drv hp]
    constructor
    · intro hno hui hsend hcap
      exact hno ⟨(sendBlocked_of_comesToSend hp hsend).trans hui, hsend, hcap⟩
    · rintro hmove ⟨hui, hsend, hcap⟩
      exact hmove ((sendBlocked_of_comesToSend hp hsend).symm.trans hui) hsend hcap
  | sent | detached => exact iff_of_true (not_deadlocked_resume _) trivial
  | arrive hp | hangup hp =>
    obtain ⟨-, hst⟩ := Pipe.stepped_of_step hp
    cases hst
    exact iff_of_true h trivial
  | receive hui =>
    refine iff_of_true (not_deadlocked_of_ui fun _ _ he => ?_) trivial
    have : UiPc.select = .sending _ _ := hui.symm.trans he
    cases this
  | _ => exact iff_of_true (not_deadlocked_of_ui fun _ _ he => nomatch he) trivial

theorem new_not_deadlocked (host user : Str) (cols rows : Nat) (history : History) :
    ¬(System.new host user cols rows history : System V).Deadlocked := fun h => nomatch h.1

/-- **The tasks never wait for each other exactly in the runs all of whose steps keep them moving.** -/
theorem never_deadlocked_iff (host user : Str) (cols rows : Nat) (history : History) (l : List SysAct)
    (hr : (Lts.run step (System.new host user cols rows history : System V) l).isSome) :
    Lts.Always step (fun s : System V => ¬s.Deadlocked) (System.new host user cols rows history) l ↔
      Lts.Each step KeepsMoving (System.new host user cols rows history : System V) l :=
  Lts.always_iff_each deadlocked_iff (new_not_deadlocked host user cols rows history) hr

/-- The remote prints and the driver takes it. -/
def printed : List SysAct := [.arrive (.data [0x78]), .drv (.wait (some (.data [0x78])))]

/-- A press of the left arrow, handled up to the send. -/
def leftPressed : List SysAct := [.typed (.key { code := .left }), .handle (.key { code := .left }) (.stable 0)]

/-- While the user holds a key, the remote prints more than is read. -/
def heldKey : List SysAct :=
  (List.replicate 253 (printed ++ [.drv (.send (.output [0x78]) true)])).flatten ++ printed ++
    (List.replicate 64 (leftPressed ++ [.sent (.bytes [0x1b, 0x5b, 0x44])])).flatten ++ leftPressed

/-- With the shell open, an input and some events are queued, and both tasks come to another send. -/
def busy : List SysAct :=
  opening ++ printed ++ [.drv (.send (.output [0x78]) true)] ++ leftPressed ++ [.sent (.bytes [0x1b, 0x5b, 0x44])] ++
    printed ++ leftPressed

theorem never_deadlocked_left :
    (Lts.run step (System.new ['h'] ['u'] 80 24 {} : System MiniVt) busy).map
      (fun s => (s.pipe.input.length, s.pipe.events.length)) = some (1, 4) ∧
    Lts.Always step (fun s : System MiniVt => ¬s.Deadlocked) (System.new ['h'] ['u'] 80 24 {}) busy := by
  refine ⟨by decide +kernel, (never_deadlocked_iff ['h'] ['u'] 80 24 {} busy (by decide +kernel)).2 ?_⟩
  decide +kernel

/-- A held key and a remote that prints: both tasks wait, with the shell open. -/
theorem deadlock_reached : ¬ ∀ (l : List SysAct) (s : System MiniVt),
    Lts.run step (System.new ['h'] ['u'] 80 24 {}) l = some s →
    .drv (.send (.stateChanged .shellOpen) true) ∈ l → ¬s.Deadlocked := by
  intro h
  have hrun : (Lts.run step (System.new ['h'] ['u'] 80 24 {} : System MiniVt) (opening ++ heldKey)).map
      (fun s => decide s.Deadlocked) = some true := by decide +kernel
  obtain ⟨s, hs, hdead⟩ := Option.map_eq_some_iff.1 hrun
  exact h _ s hs (List.mem_append_left _ (by simp [opening])) (of_decide_eq_true hdead)

end System

end TinySsh
