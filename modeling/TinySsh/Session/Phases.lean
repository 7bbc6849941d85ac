import TinySsh.Session.Pipe

/-!
# What the driver has still to do

A control point determines what the task will do before it waits for input again, as long as its sends are delivered:
the output it holds (`held`), whether it goes back to the loop (`loops`), and whether it has still to announce the end
of the session (`announces`) and to disconnect (`disconnects`). A run accounts for everything it takes
(`run_account`).
-/

namespace TinySsh

/-! ## What is taken and what is due for it -/

def SessionInput.data : SessionInput → Option (List UInt8)
  | .bytes data => some data
  | _ => none

/-- The data of the inputs. -/
def bytesOf (cmds : List SessionInput) : List (List UInt8) := cmds.filterMap SessionInput.data

/-- The event of a message that carries output. -/
def ChannelMsg.output : ChannelMsg → Option SessionEvent
  | .data d => some (.output d)
  | .extendedData d ext => if ext = 1 then some (.stderr d) else none
  | _ => none

/-- The output of the messages before the first `Close`. -/
def due : List ChannelMsg → List SessionEvent
  | [] => []
  | .close :: _ => []
  | m :: ms => m.output.toList ++ due ms

def isOutput : SessionEvent → Bool
  | .output _ | .stderr _ => true
  | _ => false

/-- The events that carry output. -/
def outputs (evs : List SessionEvent) : List SessionEvent := evs.filter isOutput

theorem outputs_append (a b : List SessionEvent) : outputs (a ++ b) = outputs a ++ outputs b := List.filter_append ..

theorem due_cons {m : ChannelMsg} (h : m ≠ .close) (ms : List ChannelMsg) :
    due (m :: ms) = m.output.toList ++ due ms := by
  cases m <;> first | rfl | exact absurd rfl h

theorem due_append {a b : List ChannelMsg} (h : .close ∉ a) : due (a ++ b) = due a ++ due b := by
  induction a with
  | nil => rfl
  | cons m a ih =>
    simp only [List.mem_cons, not_or] at h
    rw [List.cons_append, due_cons (Ne.symm h.1), due_cons (Ne.symm h.1), ih h.2, List.append_assoc]

theorem due_singleton (m : ChannelMsg) : due [m] = m.output.toList := by cases m <;> simp [due, ChannelMsg.output]

namespace Driver

/-! ## Control points -/

/-- The output that the task sends before anything else. -/
def held : Pc → List SessionEvent
  | .send ev ok _ => outputs [ev] ++ held ok
  | .disconnect next => held next
  | _ => []

/-- The input that the task writes before it takes another. -/
def writing : Pc → List (List UInt8)
  | .send _ ok _ => writing ok
  | .disconnect next => writing next
  | .write data => [data]
  | _ => []

/-- The task goes on to the loop. -/
def loops : Pc → Bool
  | .send _ ok _ => loops ok
  | .disconnect next => loops next
  | .close | .done => false
  | _ => true

/-- The task has still to announce that the session is closed. -/
def announces : Pc → Bool
  | .send ev ok _ => ev = .stateChanged .closed || announces ok
  | .disconnect next => announces next
  | .done => false
  | _ => true

/-- The task has still to disconnect. -/
def disconnects : Pc → Bool
  | .send _ ok _ => disconnects ok
  | .done => false
  | _ => true

/-- After the announcement comes the last event, and there is one disconnect. -/
def Sane : Pc → Prop
  | .send ev ok _ => (ev = .stateChanged .closed → ok = sendAnyway .closed .done) ∧ Sane ok
  | .disconnect next => disconnects next = false ∧ Sane next
  | _ => True

/-- The labels after which the task does not go back to the loop. -/
def Exit : Io → Prop
  | .connect (.error _) | .openShell (.error _) | .wait none | .wait (some .close) | .write _ (.error _) | .recv none
  | .recv (some .disconnect) => True
  | _ => False

/-- The data that a label writes. -/
def writtenData : Io → Option (List UInt8)
  | .write data _ => some data
  | _ => none

/-- The data passed to `SshSession::write` along a run. -/
def written (l : List Io) : List (List UInt8) := l.filterMap writtenData

/-- A call of `SshClient::disconnect`. -/
def isDisconnect : Io → Bool
  | .disconnect _ => true
  | _ => false

variable {pc pc' : Pc} {io : Io} {l : List Io}

theorem written_concat (l : List Io) (io : Io) : written (l ++ [io]) = written l ++ (writtenData io).toList :=
  filterMap_concat _ _ _

/-- A task that has disconnected neither goes back to the loop nor writes. -/
theorem loops_of_disconnects (h : disconnects pc = false) : loops pc = false ∧ writing pc = [] := by
  induction pc with
  | send ev ok err ih => exact ih h
  | done => exact ⟨rfl, rfl⟩
  | _ => cases h

theorem sane_driverTask : Sane driverTask := ⟨fun h => (nomatch h), trivial⟩

/-! ## One step -/

/-- Where a message leads. -/
inductive Received : Option ChannelMsg → Pc → Prop
  | ended : Received none finish
  | close : Received (some .close) finish
  | skip {m : ChannelMsg} (hc : m ≠ .close) (ho : m.output = none) : Received (some m) .select
  | event {m : ChannelMsg} {ev : SessionEvent} (hc : m ≠ .close) (ho : outputs [ev] = m.output.toList)
      (hev : ev ≠ .stateChanged .closed) : Received (some m) (.send ev .select finish)

theorem received_onMsg (msg : Option ChannelMsg) : Received msg (onMsg msg) := by
  rcases msg with _ | m
  · exact .ended
  cases m with
  | data d => exact .event (fun h => nomatch h) rfl (fun h => nomatch h)
  | extendedData d ext =>
    by_cases hext : ext = 1
    · subst hext
      exact .event (fun h => nomatch h) rfl (fun h => nomatch h)
    · have hpc : onMsg (some (.extendedData d ext)) = .select := by simp [onMsg, ChannelMsg.event, hext]
      rw [hpc]
      exact .skip (fun h => nomatch h) (if_neg hext)
  | eof => exact .skip (fun h => nomatch h) rfl
  | exitStatus s => exact .event (fun h => nomatch h) rfl (fun h => nomatch h)
  | close => exact .close
  | other => exact .skip (fun h => nomatch h) rfl

theorem sane_finish : Sane finish := ⟨rfl, fun _ => rfl, fun h => (nomatch h), trivial⟩

theorem Sane.step (h : Sane pc) (hm : Moves pc io pc') : Sane pc' := by
  cases hm with
  | send => exact h.2
  | disconnected => exact h.2
  | input cmd => rcases cmd with _ | _ | _ | _ <;> first | exact sane_finish | trivial
  | message msg =>
    have hr := received_onMsg msg
    generalize onMsg msg = q at hr ⊢
    cases hr with
    | ended | close => exact sane_finish
    | skip => trivial
    | event hc ho hev => exact ⟨fun h => absurd h hev, trivial⟩
  | notWritten => exact ⟨fun h => (nomatch h), sane_finish⟩
  | closed => exact sane_finish
  | connected => exact ⟨fun h => (nomatch h), trivial⟩
  | opened => exact ⟨fun h => (nomatch h), trivial⟩
  | notResized => exact ⟨fun h => (nomatch h), trivial⟩
  | notConnected => exact ⟨fun h => (nomatch h), fun h => (nomatch h), fun h => (nomatch h), trivial⟩
  | notOpened => exact ⟨fun h => (nomatch h), fun h => (nomatch h), rfl, fun h => (nomatch h), trivial⟩
  | _ => trivial

/-- **One step keeps account of the output.** -/
theorem Moves.account (hm : Moves pc io pc') : outputs (sentEvent io).toList ++ held pc' =
    held pc ++ ((takenMsg io).bind ChannelMsg.output).toList := by
  cases hm with
  | send => simp [sentEvent, takenMsg, held]
  | input cmd => rcases cmd with _ | _ | _ | _ <;> rfl
  | message msg =>
    have hr := received_onMsg msg
    generalize onMsg msg = q at hr ⊢
    cases hr with
    | ended | close => rfl
    | skip hc ho => simp [sentEvent, takenMsg, held, outputs, ho]
    | event hc ho hev => simpa [sentEvent, takenMsg, held, outputs] using ho
  | disconnected => simp [sentEvent, takenMsg, held, outputs]
  | _ => rfl

/-- **One step keeps account of the input.** -/
theorem Moves.accountInput (hm : Moves pc io pc') : (writtenData io).toList ++ writing pc' =
    writing pc ++ bytesOf (takenInput io).toList := by
  cases hm with
  | send => simp [writtenData, takenInput, writing, bytesOf]
  | disconnected => simp [writtenData, takenInput, writing, bytesOf]
  | input cmd => rcases cmd with _ | _ | _ | _ <;> rfl
  | message msg =>
    have hr := received_onMsg msg
    generalize onMsg msg = q at hr ⊢
    cases hr <;> rfl
  | _ => rfl

/-- Messages are taken in the loop, and a `Close` ends it. -/
theorem Moves.takenMsg (hm : Moves pc io pc') {m : ChannelMsg} (h : takenMsg io = some m) :
    loops pc = true ∧ (m = .close → loops pc' = false) := by
  cases hm with
  | message msg =>
    cases h
    exact ⟨rfl, fun hc => by subst hc; rfl⟩
  | _ => cases h

/-- A task that has left the loop does not go back. -/
theorem Moves.loops_false (hm : Moves pc io pc') (h : loops pc = false) : loops pc' = false := by
  cases hm with
  | send => exact h
  | disconnected => exact h
  | closed => rfl
  | _ => cases h

/-- A task that goes on to the loop went on to it before. -/
theorem Moves.loops_of_loops (hm : Moves pc io pc') (h : loops pc' = true) : loops pc = true := by
  by_contra hpc
  rw [hm.loops_false (by simpa using hpc)] at h
  cases h

/-- The ways out of the loop. -/
theorem Moves.exit (hm : Moves pc io pc') (h : loops pc = true) (h' : loops pc' = false) : Exit io := by
  cases hm with
  | input cmd => rcases cmd with _ | _ | _ | _ <;> trivial
  | message msg =>
    have hr := received_onMsg msg
    generalize onMsg msg = q at hr h'
    cases hr with
    | ended | close => trivial
    | skip | event => cases h'
  | notConnected | notOpened | notWritten => trivial
  | send | disconnected => rw [loops] at h; rw [h] at h'; cases h'
  | closed => cases h
  | _ => cases h'

/-- A failed write leaves the loop. -/
theorem Moves.loops_notWritten {data : List UInt8} {e : SshError} (hm : Moves pc (.write data (.error e)) pc') :
    loops pc = true ∧ loops pc' = false := by
  cases hm
  exact ⟨rfl, rfl⟩

/-- No way out takes output. -/
theorem Exit.due (h : Exit io) : due (takenMsg io).toList = [] := by
  cases io with
  | wait msg =>
    rcases msg with _ | m
    · rfl
    · cases m <;> first | rfl | cases h
  | _ => rfl

theorem Moves.disconnects_false (hm : Moves pc io pc') (h : disconnects pc = false) : disconnects pc' = false := by
  cases hm with
  | send => exact h
  | _ => cases h

/-- After the call of `disconnect` there is none ahead. -/
theorem Sane.disconnects_of_call (h : Sane pc) (hm : Moves pc io pc') (hio : isDisconnect io = true) :
    disconnects pc' = false := by
  cases hm with
  | disconnected => exact h.1
  | _ => cases hio

/-- The announcement is made once, on the way out. -/
theorem Moves.announces_false (hm : Moves pc io pc') (h : announces pc = false) :
    announces pc' = false ∧ sentEvent io ≠ some (.stateChanged .closed) := by
  cases hm with
  | send ev ok err =>
    simp only [announces, Bool.or_eq_false_iff, decide_eq_false_iff_not] at h
    exact ⟨h.2, fun he => h.1 (Option.some.inj he)⟩
  | disconnected => exact ⟨h, fun he => nomatch he⟩
  | _ => cases h

/-- A session that does not start announces no end. -/
theorem Moves.not_announced (hm : Moves pc io pc')
    (h : (∃ e, io = .connect (.error e)) ∨ ∃ e, io = .openShell (.error e)) : announces pc' = false := by
  rcases h with ⟨e, rfl⟩ | ⟨e, rfl⟩ <;> cases hm <;>
    simp [announces, connectFailed, openFailed, sendAnyway]

theorem Sane.loops_of_sent (h : Sane pc) (hm : Moves pc io pc') (hs : sentEvent io = some (.stateChanged .closed)) :
    pc' = sendAnyway .closed .done ∧ loops pc = false := by
  cases hm with
  | send ev ok err =>
    have hok := h.1 (Option.some.inj hs)
    exact ⟨hok, by rw [loops, hok]; rfl⟩
  | _ => cases hs

/-! ## Runs -/

/-- The account of a run: what was sent and what is held is what was due, and so for what was written; as long as the
task goes on to the loop, it has seen no `Close` and announced no end; it disconnects once. -/
structure Account (l : List Io) (pc : Pc) : Prop where
  sane : Sane pc
  output : outputs (sent l) ++ held pc = due (consumed l)
  noClose : loops pc = true → .close ∉ consumed l
  noEnd : loops pc = true → .stateChanged .closed ∉ sent l
  input : written l ++ writing pc = bytesOf (taken l)
  disconnected : l.any isDisconnect = true → disconnects pc = false

theorem Account.step (h : Account l pc) (hd : Delivered io) (hs : Driver.step pc io = some pc') :
    Account (l ++ [io]) pc' := by
  have hm := moves_of_step hs hd
  have hloops : loops pc' = true → loops pc = true := hm.loops_of_loops
  refine ⟨h.sane.step hm, ?_, fun h' => ?_, fun h' => ?_, ?_, fun h' => ?_⟩
  · rw [sent_concat, consumed_concat, outputs_append, List.append_assoc, hm.account, ← List.append_assoc, h.output]
    cases hmsg : Driver.takenMsg io with
    | none => simp
    | some m =>
      rw [Option.toList_some, due_append (h.noClose (hm.takenMsg hmsg).1), due_singleton]
      rfl
  · rw [consumed_concat, List.mem_append, not_or]
    refine ⟨h.noClose (hloops h'), fun hc => ?_⟩
    rw [(hm.takenMsg (Option.mem_toList.1 hc)).2 rfl] at h'
    cases h'
  · rw [sent_concat, List.mem_append, not_or]
    refine ⟨h.noEnd (hloops h'), fun hc => ?_⟩
    have := (h.sane.loops_of_sent hm (Option.mem_toList.1 hc)).2
    rw [hloops h'] at this
    cases this
  · rw [written_concat, taken_concat, List.append_assoc, hm.accountInput, ← List.append_assoc, h.input]
    exact List.filterMap_append.symm
  · rw [List.any_append, Bool.or_eq_true] at h'
    rcases h' with h' | h'
    · exact hm.disconnects_false (h.disconnected h')
    · exact h.sane.disconnects_of_call hm (by simpa using h')

/-- **A run accounts for everything it takes.** -/
theorem run_account (hr : Lts.run step driverTask l = some pc) (hd : ∀ io ∈ l, Delivered io) : Account l pc :=
  Lts.run_trace (Q := Delivered) (I := Account) (fun h hd hs => h.step hd hs)
    ⟨sane_driverTask, rfl, fun _ h => (nomatch h), fun _ h => (nomatch h), rfl, fun h => (nomatch h)⟩ hd hr

/-- Out of the loop, the task takes no message and sends only the output it holds. -/
theorem run_after (hr : Lts.run step pc l = some pc') (hd : ∀ io ∈ l, Delivered io) (h : loops pc = false) :
    consumed l = [] ∧ outputs (sent l) ++ held pc' = held pc ∧ loops pc' = false := by
  have hI := Lts.run_trace (Q := Delivered)
    (I := fun l q => consumed l = [] ∧ outputs (sent l) ++ held q = held pc ∧ loops q = false)
    (fun {l q io q'} hI hd hs => ?_) ⟨rfl, rfl, h⟩ hd hr
  · exact hI
  · obtain ⟨hc, ho, hl⟩ := hI
    have hm := moves_of_step hs hd
    have hnone : takenMsg io = none := by
      cases hmsg : takenMsg io with
      | none => rfl
      | some m => rw [(hm.takenMsg hmsg).1] at hl; cases hl
    refine ⟨by rw [consumed_concat, hc, hnone]; rfl, ?_, hm.loops_false hl⟩
    rw [sent_concat, outputs_append, List.append_assoc, hm.account, hnone, ← ho]
    simp

/-- Once the announcement is behind it, the task does not make it. -/
theorem run_announces (hr : Lts.run step pc l = some pc') (hd : ∀ io ∈ l, Delivered io) (h : announces pc = false) :
    .stateChanged .closed ∉ sent l := by
  have hI := Lts.run_trace (Q := Delivered)
    (I := fun l q => announces q = false ∧ .stateChanged .closed ∉ sent l)
    (fun {l q io q'} hI hd hs => ?_) ⟨h, fun h => nomatch h⟩ hd hr
  · exact hI.2
  · obtain ⟨hq, hne⟩ := (moves_of_step hs hd).announces_false hI.1
    refine ⟨hq, ?_⟩
    rw [sent_concat, List.mem_append, not_or]
    exact ⟨hI.2, fun hc => hne (Option.mem_toList.1 hc)⟩

/-- After the announcement of the end there is no output. -/
theorem run_announced {before after : List SessionEvent} (hr : Lts.run step driverTask l = some pc)
    (hd : ∀ io ∈ l, Delivered io) (hsent : sent l = before ++ .stateChanged .closed :: after) :
    outputs before = outputs (sent l) ∧ held pc = [] ∧ loops pc = false := by
  obtain ⟨l₁, l', rfl, rfl, hl'⟩ := List.filterMap_eq_append_iff.1 hsent
  obtain ⟨l₂, io, l₃, rfl, -, hio, rfl⟩ := List.filterMap_eq_cons_iff.1 hl'
  have hsplit : l₁ ++ (l₂ ++ io :: l₃) = (l₁ ++ l₂) ++ io :: l₃ := (List.append_assoc _ _ _).symm
  rw [hsplit] at hr hd
  obtain ⟨q, hq, hr⟩ := Lts.run_append_some hr
  obtain ⟨q', hq', hr⟩ := Lts.run_cons_some hr
  have hsane := (run_account hq fun a ha => hd a (List.mem_append_left _ ha)).sane
  obtain ⟨rfl, -⟩ := hsane.loops_of_sent (moves_of_step hq' (hd io (by simp))) hio
  obtain ⟨-, hout, hloops⟩ := run_after hr (fun a ha => hd a (by simp [ha])) rfl
  obtain ⟨hafter, hheld⟩ := List.append_eq_nil_iff.1 hout
  refine ⟨?_, hheld, hloops⟩
  rw [hsent, outputs_append]
  have hnil : outputs (.stateChanged .closed :: sent l₃) = [] := hafter
  exact (congrArg (outputs _ ++ ·) hnil).trans (List.append_nil _) |>.symm

end Driver

end TinySsh
