import TinySsh.Session.Phases

/-!
# Output left behind

When a session has announced its end, has all output of the remote been emitted? The loop leaves the queue of the
channel empty, or behind a `Close`, at every exit but one: a failed write. Output is lost exactly when a failed write
leaves some in the queue, or some arrives after it (`noLoss_iff`).
-/

namespace TinySsh.Pipe

open Driver

variable {p p' : Pipe} {l : List Act} {a : Act}

/-! ## Statements -/

/-- What the remote sent before its `Close` was emitted, in order, before the end of the session was announced. -/
def NoLoss (l : List Act) : Prop := ∀ before after, sent (ios l) = before ++ .stateChanged .closed :: after →
  outputs before = due (arrived l)

/-- A failed write leaves no output behind: none is queued before a `Close`, and none arrives. -/
def WritesDrained (p : Pipe) (l : List Act) : Prop := ∀ l₁ data e l₂ q,
  l = l₁ ++ .drv (.write data (.error e)) :: l₂ → Lts.run step p l₁ = some q → due (q.remote ++ arrived l₂) = []

/-! ## Runs around the exit of the loop -/

/-- No label of the driver reports a dropped receiver. -/
theorem delivered_of_run (h : Lts.run step p l = some p') : ∀ io ∈ ios l, Delivered io := by
  induction l generalizing p with
  | nil => intro io hm; cases hm
  | cons a l ih =>
    obtain ⟨q, hq, hl⟩ := Lts.run_cons_some h
    intro io hm
    rcases List.mem_filterMap.1 hm with ⟨b, hb, hio⟩
    rcases List.mem_cons.1 hb with rfl | hb
    · cases b <;> cases hio
      exact (io_of_step hq).1
    · exact ih hl io (List.mem_filterMap.2 ⟨b, hb, hio⟩)

theorem run_account (h : Lts.run step {} l = some p) : Account (ios l) p.pc :=
  Driver.run_account (run_driver h) (delivered_of_run h)

/-- Nothing arrives after the end of the channel. -/
theorem arrived_of_ended (he : p.ended = true) (h : Lts.run step p l = some p') : arrived l = [] := by
  have hI := Lts.run_trace (Q := fun _ => True) (I := fun l (q : Pipe) => q.ended = true ∧ arrived l = [])
    (fun {l q a q'} hI _ hs => ?_) ⟨he, rfl⟩ (fun _ _ => trivial) h
  · exact hI.2
  · obtain ⟨hend, harr⟩ := hI
    obtain ⟨-, hs⟩ := stepped_of_step hs
    rw [arrived_concat, harr]
    cases hs with
    | drv hpc hq => cases hq <;> exact ⟨hend, rfl⟩
    | arrive hno => rw [hend] at hno; cases hno
    | hangup => exact ⟨rfl, rfl⟩
    | _ => exact ⟨hend, rfl⟩

/-- The step at which the task leaves the loop, in a run that ends out of it. -/
theorem run_exit (h : Lts.run step {} l = some p) (hout : loops p.pc = false) :
    ∃ l₁ io l₂ q q', l = l₁ ++ .drv io :: l₂ ∧ Lts.run step {} l₁ = some q ∧ loops q.pc = true ∧
      q.step (.drv io) = some q' ∧ loops q'.pc = false ∧ Lts.run step q' l₂ = some p := by
  obtain ⟨l₁, a, l₂, q, q', rfl, hl₁, hq, hs, hq', hl₂⟩ :=
    Lts.run_leaves (I := fun p : Pipe => loops p.pc = true) rfl (by simp [hout]) h
  rw [Bool.not_eq_true] at hq'
  cases a with
  | drv io => exact ⟨l₁, io, l₂, q, q', rfl, hl₁, hq, hs, hq', hl₂⟩
  | _ =>
    -- the other parties do not move the driver
    have hpc : q.pc = q'.pc := Option.some.inj (pc_of_step hs)
    rw [hpc, hq'] at hq
    cases hq

theorem moves_of_pipe {io : Io} (hs : p.step (.drv io) = some p') : Moves p.pc io p'.pc := by
  obtain ⟨-, hst⟩ := stepped_of_step hs
  cases hst with
  | drv hpc hq => exact moves_of_step hpc (io_of_step hs).1

/-- The ways out of the loop, with the queues there. -/
inductive Leaves (p : Pipe) : Io → Prop
  | notConnected (e : SshError) : Leaves p (.connect (.error e))
  | notOpened (e : SshError) : Leaves p (.openShell (.error e))
  | notWritten (data : List UInt8) (e : SshError) : Leaves p (.write data (.error e))
  | requested {input : List SessionInput} (h : p.input = .disconnect :: input) : Leaves p (.recv (some .disconnect))
  | peerClosed {remote : List ChannelMsg} (h : p.remote = .close :: remote) : Leaves p (.wait (some .close))
  | ended (h : p.remote = []) (he : p.ended = true) : Leaves p (.wait none)

theorem leaves_of_exit {io : Io} (hs : p.step (.drv io) = some p') (hexit : Exit io) : Leaves p io := by
  obtain ⟨-, hst⟩ := stepped_of_step hs
  cases hst with
  | drv hpc hqueue =>
    cases hqueue with
    | send => cases hexit
    | @recv c input hin => cases c <;> cases hexit; exact .requested hin
    | @wait m remote hrem => cases m <;> cases hexit; exact .peerClosed hrem
    | waitEnd hrem hend => exact .ended hrem hend
    | call hsend hrecv hwait =>
      cases io with
      | connect r => cases r <;> cases hexit; exact .notConnected _
      | openShell r => cases r <;> cases hexit; exact .notOpened _
      | write data r => cases r <;> cases hexit; exact .notWritten _ _
      | recv cmd => exact absurd rfl (hrecv cmd)
      | wait msg => exact absurd rfl (hwait msg)
      | _ => cases hexit

/-- **Nothing is lost exactly when nothing is left behind where the task leaves the loop.** -/
theorem noLoss_iff_exit {l₁ l₂ : List Act} {io : Io} {q q' : Pipe} (hl₁ : Lts.run step {} l₁ = some q)
    (hq : loops q.pc = true) (hs : q.step (.drv io) = some q') (hq' : loops q'.pc = false)
    (hl₂ : Lts.run step q' l₂ = some p)
    (hclosed : .stateChanged .closed ∈ sent (ios (l₁ ++ .drv io :: l₂))) :
    NoLoss (l₁ ++ .drv io :: l₂) ↔ due (q.remote ++ arrived l₂) = [] := by
  set l := l₁ ++ .drv io :: l₂ with hl
  have hrun : Lts.run step {} l = some p := Lts.run_trans hl₁ (by rw [Lts.run_cons, hs]; exact hl₂)
  have hdel := delivered_of_run hrun
  have hios : ios l = ios l₁ ++ io :: ios l₂ := by rw [hl, ios_append]; rfl
  have harr : arrived l = arrived l₁ ++ arrived l₂ := by rw [hl, arrived_append]; rfl
  have hm := moves_of_pipe hs
  -- the messages taken, and the output sent for them
  have hnoClose := (run_account hl₁).noClose hq
  have hcons : consumed (ios l) = consumed (ios l₁) ++ (takenMsg io).toList := by
    have hnone := (run_after (run_driver hl₂) (delivered_of_run hl₂) hq').1
    rw [hios, ← List.singleton_append, ← List.append_assoc, consumed, List.filterMap_append]
    exact (congrArg _ hnone).trans ((List.append_nil _).trans (consumed_concat _ _))
  have hexit : due (takenMsg io).toList = [] := (hm.exit hq hq').due
  have hsent : ∀ before after, sent (ios l) = before ++ .stateChanged .closed :: after →
      outputs before = due (consumed (ios l₁)) := by
    intro before after hsplit
    obtain ⟨hbefore, hheld, -⟩ := run_announced (run_driver hrun) hdel hsplit
    have hacc := (run_account hrun).output
    rw [hheld, List.append_nil, hcons, due_append hnoClose, hexit, List.append_nil] at hacc
    rw [hbefore, hacc]
  have hdue : due (arrived l) = due (consumed (ios l₁)) ++ due (q.remote ++ arrived l₂) := by
    rw [harr, (run_flow hl₁).remote, List.append_assoc, due_append hnoClose]
  constructor
  · intro hno
    obtain ⟨before, after, hsplit⟩ := List.append_of_mem hclosed
    have := (hsent _ _ hsplit).symm.trans (hno _ _ hsplit)
    rw [hdue] at this
    exact List.append_right_eq_self.1 this.symm
  · intro hnil before after hsplit
    rw [hsent _ _ hsplit, hdue, hnil, List.append_nil]

/-- A session whose shell did not open does not announce an end. -/
theorem not_announced {l₁ l₂ : List Act} {io : Io} {q q' : Pipe} (hl₁ : Lts.run step {} l₁ = some q)
    (hq : loops q.pc = true) (hs : q.step (.drv io) = some q') (hl₂ : Lts.run step q' l₂ = some p)
    (hq' : announces q'.pc = false) : .stateChanged .closed ∉ sent (ios (l₁ ++ .drv io :: l₂)) := by
  have hios : ios (l₁ ++ .drv io :: l₂) = ios l₁ ++ [io] ++ ios l₂ := by rw [ios_append, List.append_assoc]; rfl
  rw [hios, sent_append, sent_concat, List.mem_append, List.mem_append, not_or, not_or]
  refine ⟨⟨(run_account hl₁).noEnd hq, fun hm => ?_⟩, run_announces (run_driver hl₂) (delivered_of_run hl₂) hq'⟩
  have hloops := ((run_account hl₁).sane.loops_of_sent (moves_of_pipe hs) (Option.mem_toList.1 hm)).2
  rw [hq] at hloops
  cases hloops

/-- **While the user does not disconnect, a session loses no output exactly when its failed writes leave none
behind.** -/
theorem noLoss_iff (h : Lts.run step {} l = some p) (hclosed : .stateChanged .closed ∈ sent (ios l))
    (hdisc : .push .disconnect ∉ l) : NoLoss l ↔ WritesDrained {} l := by
  constructor
  · rintro hno l₁ data e l₂ q rfl hl₁
    obtain ⟨r, hr, h⟩ := Lts.run_append_some h
    obtain rfl : r = q := Option.some.inj (hr.symm.trans hl₁)
    obtain ⟨q', hs, hl₂⟩ := Lts.run_cons_some h
    obtain ⟨hin, hout⟩ := (moves_of_pipe hs).loops_notWritten
    exact (noLoss_iff_exit hl₁ hin hs hout hl₂ hclosed).1 hno
  · intro hw
    have hout : loops p.pc = false := by
      obtain ⟨before, after, hsplit⟩ := List.append_of_mem hclosed
      exact (run_announced (run_driver h) (delivered_of_run h) hsplit).2.2
    obtain ⟨l₁, io, l₂, q, q', rfl, hl₁, hq, hs, hq', hl₂⟩ := run_exit h hout
    refine (noLoss_iff_exit hl₁ hq hs hq' hl₂ hclosed).2 ?_
    have hm := moves_of_pipe hs
    have hstart : ¬((∃ e, io = .connect (.error e)) ∨ ∃ e, io = .openShell (.error e)) := fun hio =>
      not_announced hl₁ hq hs hl₂ (hm.not_announced hio) hclosed
    cases leaves_of_exit hs (hm.exit hq hq') with
    | notConnected e => exact absurd (.inl ⟨e, rfl⟩) hstart
    | notOpened e => exact absurd (.inr ⟨e, rfl⟩) hstart
    | notWritten data e => exact hw l₁ data e l₂ q rfl hl₁
    | requested hin =>
      have hpush : .push .disconnect ∈ l₁ := mem_pushed.1 (by simp [(run_flow hl₁).input, hin])
      exact absurd (List.mem_append_left _ hpush) hdisc
    | peerClosed hrem => rw [hrem]; rfl
    | ended hrem hend =>
      have hend' : q'.ended = true := by
        obtain ⟨-, hst⟩ := stepped_of_step hs
        cases hst with
        | drv hpc hqueue => cases hqueue <;> exact hend
      rw [hrem, arrived_of_ended hend' hl₂]
      rfl

/-- The opening of a shell. -/
def opening : List Act :=
  [.drv (.send (.stateChanged .connecting) true), .drv (.connect (.ok ())),
   .drv (.send (.stateChanged .authenticated) true), .drv (.openShell (.ok ())),
   .drv (.send (.stateChanged .shellOpen) true)]

/-- A failed write and the end of the session. -/
def failedWrite : List Act :=
  [.push (.bytes [0x61]), .drv (.recv (some (.bytes [0x61]))), .drv (.write [0x61] (.error (.write "disconnected"))),
   .drv (.send (.error "write failed: disconnected") true), .drv (.disconnect (.ok ())),
   .drv (.send (.stateChanged .closed) true), .drv (.send .closed true)]

/-- The output was emitted before the write failed. -/
def keptRun : List Act :=
  opening ++ [.arrive (.data [0x78]), .drv (.wait (some (.data [0x78]))), .drv (.send (.output [0x78]) true)] ++
    failedWrite

/-- The remote printed a line and closed the channel before the write failed. -/
def lostRun : List Act := opening ++ [.arrive (.data [0x78]), .arrive .close] ++ failedWrite

theorem noLoss_kept : NoLoss keptRun ∧ WritesDrained {} keptRun := by
  obtain ⟨p, h⟩ : ∃ p, Lts.run step {} keptRun = some p := ⟨_, rfl⟩
  have hno : NoLoss keptRun := fun before after hsplit => by
    rw [(run_announced (run_driver h) (delivered_of_run h) hsplit).1]
    decide
  exact ⟨hno, (noLoss_iff h (by decide) (by simp [keptRun, opening, failedWrite])).1 hno⟩

/-- A key pressed as the remote exits loses the last output. -/
theorem output_lost : ¬ ∀ (l : List Act) (p : Pipe), Lts.run step {} l = some p →
    .stateChanged .closed ∈ sent (ios l) → .push .disconnect ∉ l → NoLoss l := by
  intro h
  have hno := h lostRun _ rfl (by decide) (by simp [lostRun, opening, failedWrite])
  exact absurd (hno _ [.closed] (by rfl : _ = [.stateChanged .connecting, .stateChanged .authenticated,
    .stateChanged .shellOpen, .error "write failed: disconnected"] ++ _)) (by decide)

end TinySsh.Pipe
