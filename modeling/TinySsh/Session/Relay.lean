import TinySsh.Session.Drain

/-!
# The driver as a two-way pipe

What goes through the driver, in both directions, over every run of the pipe.

* `run_events`: the events sent, with those ahead, are the events that the labels cause, label by label.
* `run_calls`: the calls made, with the one ahead, are the inputs taken before a disconnect.
* `relays`: hence both directions keep order and content.
-/

namespace TinySsh

/-! ## What is passed on -/

/-- The event of a message that the driver passes on. -/
def ChannelMsg.relay : ChannelMsg → Option SessionEvent
  | .data d => some (.output d)
  | .extendedData d ext => if ext = 1 then some (.stderr d) else none
  | .exitStatus s => some (.exitStatus s)
  | _ => none

def isRelayed : SessionEvent → Bool
  | .output _ | .stderr _ | .exitStatus _ => true
  | _ => false

/-- The events that stand for messages. -/
def relayed (evs : List SessionEvent) : List SessionEvent := evs.filter isRelayed

/-- The inputs before the first request to disconnect. -/
def beforeDisconnect (cmds : List SessionInput) : List SessionInput := cmds.takeWhile (· ≠ .disconnect)

theorem relayed_append (a b : List SessionEvent) : relayed (a ++ b) = relayed a ++ relayed b := List.filter_append ..

theorem relayed_relay (m : ChannelMsg) : relayed m.relay.toList = m.relay.toList := by
  cases m with
  | extendedData d ext => by_cases hext : ext = 1 <;> simp [ChannelMsg.relay, relayed, isRelayed, hext]
  | _ => rfl

theorem beforeDisconnect_append {a : List SessionInput} (h : .disconnect ∉ a) (b : List SessionInput) :
    beforeDisconnect (a ++ b) = a ++ beforeDisconnect b :=
  List.takeWhile_append_of_pos fun _ hm => decide_eq_true fun hc => h (hc ▸ hm)

theorem beforeDisconnect_of_notMem {a : List SessionInput} (h : .disconnect ∉ a) : beforeDisconnect a = a := by
  simpa [beforeDisconnect] using beforeDisconnect_append h []

/-- What follows a request to disconnect does not count. -/
theorem beforeDisconnect_cut {a : List SessionInput} (h : .disconnect ∈ a) (b : List SessionInput) :
    beforeDisconnect (a ++ b) = beforeDisconnect a := by
  obtain ⟨c, d, rfl, hc⟩ := List.eq_append_cons_of_mem h
  rw [List.append_assoc, beforeDisconnect_append hc, beforeDisconnect_append hc]
  rfl

theorem prefix_beforeDisconnect (a b : List SessionInput) : beforeDisconnect a <+: beforeDisconnect (a ++ b) := by
  by_cases h : .disconnect ∈ a
  · exact (beforeDisconnect_cut h b).symm ▸ List.prefix_rfl
  · rw [beforeDisconnect_of_notMem h, beforeDisconnect_append h]
    exact List.prefix_append _ _

namespace Driver

/-- The call of `SshSession::write` or `SshSession::resize` that a label completes, as the input it stands for. -/
def call : Io → Option SessionInput
  | .write data _ => some (.bytes data)
  | .resize cols rows _ => some (.resize cols rows)
  | _ => none

/-- The calls along a run. -/
def calls (l : List Io) : List SessionInput := l.filterMap call

/-- The call that the task makes before it takes another input. -/
def calling : Pc → List SessionInput
  | .send _ ok _ => calling ok
  | .disconnect next => calling next
  | .write data => [.bytes data]
  | .resize cols rows => [.resize cols rows]
  | _ => []

/-- The events that the task sends before it takes or waits for anything else, a disconnect apart. -/
def ahead : Pc → List SessionEvent
  | .send ev ok _ => ev :: ahead ok
  | .disconnect next => ahead next
  | _ => []

/-- The events that the task sends for the outcome of an `await`. -/
def caused : Io → List SessionEvent
  | .connect (.ok ()) => [.stateChanged .authenticated]
  | .openShell (.ok ()) => [.stateChanged .shellOpen]
  | .connect (.error e) | .openShell (.error e) => [.error e.toString, .stateChanged (.failed e.toString), .closed]
  | .write _ (.error e) => [.error e.toString, .stateChanged .closed, .closed]
  | .resize _ _ (.error e) => [.error e.toString]
  | .wait (some .close) | .wait none | .recv none | .close _ => [.stateChanged .closed, .closed]
  | .wait (some m) => m.relay.toList
  | _ => []

variable {pc pc' : Pc} {io : Io} {l : List Io}

theorem calls_concat (l : List Io) (io : Io) : calls (l ++ [io]) = calls l ++ (call io).toList :=
  filterMap_concat _ _ _

/-! ## One step -/

/-- What is sent or ahead after a message. -/
theorem ahead_onMsg (msg : Option ChannelMsg) : ahead (onMsg msg) = caused (.wait msg) := by
  rcases msg with _ | m
  · rfl
  cases m with
  | extendedData d ext => by_cases hext : ext = 1 <;>
      simp [onMsg, ChannelMsg.event, onEvent, ahead, caused, ChannelMsg.relay, hext]
  | _ => rfl

/-- **A step sends the event ahead, or adds those it causes.** -/
theorem Moves.events (hm : Moves pc io pc') : (sentEvent io).toList ++ ahead pc' = ahead pc ++ caused io := by
  cases hm with
  | send => simp [sentEvent, ahead, caused]
  | disconnected => simp [sentEvent, ahead, caused]
  | message msg => exact ahead_onMsg msg
  | input cmd => rcases cmd with _ | _ | _ | _ <;> rfl
  | _ => rfl

/-- **A step makes the call ahead, or takes an input for one.** -/
theorem Moves.calls (hm : Moves pc io pc') : (call io).toList ++ calling pc' =
    calling pc ++ beforeDisconnect (takenInput io).toList := by
  cases hm with
  | send => simp [call, takenInput, calling, beforeDisconnect]
  | disconnected => simp [call, takenInput, calling, beforeDisconnect]
  | message msg =>
    have hr := received_onMsg msg
    generalize onMsg msg = q at hr ⊢
    cases hr <;> rfl
  | input cmd => rcases cmd with _ | _ | _ | _ <;> rfl
  | _ => rfl

/-- Inputs are taken in the loop, and a request to disconnect ends it. -/
theorem Moves.takenInput (hm : Moves pc io pc') {cmd : SessionInput} (h : takenInput io = some cmd) :
    loops pc = true ∧ (cmd = .disconnect → loops pc' = false) := by
  cases hm with
  | input =>
    cases h
    exact ⟨rfl, fun hc => by subst hc; rfl⟩
  | _ => cases h

/-- The message of a label is what it relays. -/
theorem relayed_caused (io : Io) : relayed (caused io) = ((takenMsg io).bind ChannelMsg.relay).toList := by
  cases io with
  | connect r | openShell r | write _ r | resize _ _ r => cases r <;> rfl
  | recv cmd => cases cmd <;> rfl
  | wait msg =>
    rcases msg with _ | m
    · rfl
    cases m with
    | extendedData d ext => exact relayed_relay _
    | _ => rfl
  | _ => rfl

/-! ## Runs -/

/-- **The events of a run are the events its labels cause, but for those ahead.** -/
theorem run_events (hr : Lts.run step driverTask l = some pc) (hd : ∀ io ∈ l, Delivered io) :
    sent l ++ ahead pc = .stateChanged .connecting :: l.flatMap caused :=
  Lts.run_trace (Q := Delivered) (I := fun l pc => sent l ++ ahead pc = .stateChanged .connecting :: l.flatMap caused)
    (fun {l pc io pc'} h hd hs => by
      rw [sent_concat, List.append_assoc, (moves_of_step hs hd).events, ← List.append_assoc, h]
      simp)
    rfl hd hr

/-- **The calls of a run are the inputs taken before a request to disconnect, but for the one ahead.** -/
theorem run_calls (hr : Lts.run step driverTask l = some pc) (hd : ∀ io ∈ l, Delivered io) :
    calls l ++ calling pc = beforeDisconnect (taken l) := by
  have hI := Lts.run_trace (Q := Delivered)
    (I := fun l pc => calls l ++ calling pc = beforeDisconnect (taken l) ∧ (loops pc = true → .disconnect ∉ taken l))
    (fun {l pc io pc'} hI hd hs => ?_) ⟨rfl, fun _ h => nomatch h⟩ hd hr
  · exact hI.1
  · obtain ⟨hcalls, hloop⟩ := hI
    have hm := moves_of_step hs hd
    rw [calls_concat, taken_concat, List.append_assoc, hm.calls, ← List.append_assoc, hcalls]
    cases hin : Driver.takenInput io with
    | none =>
      simp only [Option.toList_none, List.append_nil]
      exact ⟨List.append_nil _, fun h' => hloop (hm.loops_of_loops h')⟩
    | some cmd =>
      obtain ⟨hpc, hend⟩ := hm.takenInput hin
      have hno := hloop hpc
      refine ⟨by rw [beforeDisconnect_append hno, beforeDisconnect_of_notMem hno], fun h' hmem => ?_⟩
      rcases List.mem_append.1 hmem with hmem | hmem
      · exact hno hmem
      · rw [hend (Option.some.inj (Option.mem_toList.1 hmem))] at h'
        cases h'

/-- After the request to disconnect the task makes no call. -/
theorem run_requested {l₁ l₂ : List Io} (hr : Lts.run step driverTask (l₁ ++ .recv (some .disconnect) :: l₂) = some pc)
    (hd : ∀ io ∈ l₁ ++ .recv (some .disconnect) :: l₂, Delivered io) : calls l₂ = [] := by
  have hsplit : l₁ ++ .recv (some .disconnect) :: l₂ = (l₁ ++ [.recv (some .disconnect)]) ++ l₂ :=
    List.append_cons _ _ _
  rw [hsplit] at hr hd
  obtain ⟨q, hq, -⟩ := Lts.run_append_some hr
  have hbefore := run_calls hq fun io hm => hd io (List.mem_append_left _ hm)
  have hafter := run_calls hr hd
  have hmem : .disconnect ∈ taken (l₁ ++ [.recv (some .disconnect)]) := by
    rw [taken_concat]
    exact List.mem_append_right _ List.mem_cons_self
  rw [taken, List.filterMap_append, ← taken, beforeDisconnect_cut hmem, ← hbefore, calls, List.filterMap_append,
    List.append_assoc, ← calls, ← calls] at hafter
  have hpc : calling q = [] := by
    obtain ⟨q₁, -, hq₁⟩ := Lts.run_append_some hq
    have hm : Moves q₁ (.recv (some .disconnect)) q :=
      moves_of_step (by simpa [Option.bind_eq_some_iff] using hq₁) trivial
    cases hm
    rfl
  rw [hpc] at hafter
  exact (List.append_eq_nil_iff.1 (List.append_cancel_left hafter)).1

/-- **What a run relays are its messages, in order, but for what is ahead.** -/
theorem run_relayed (hr : Lts.run step driverTask l = some pc) (hd : ∀ io ∈ l, Delivered io) :
    relayed (sent l) ++ relayed (ahead pc) = (consumed l).filterMap ChannelMsg.relay := by
  rw [← relayed_append, run_events hr hd]
  show relayed (l.flatMap caused) = _
  clear hr hd
  induction l with
  | nil => rfl
  | cons io l ih =>
    rw [List.flatMap_cons, relayed_append, ih, relayed_caused, consumed, consumed, List.filterMap_cons]
    cases takenMsg io with
    | none => rfl
    | some m => cases h : m.relay <;> simp [h]

end Driver

/-! ## In the pipe -/

namespace Pipe

open Driver

/-- Both directions keep order and content. -/
structure Relays (l : List Act) (p : Pipe) : Prop where
  /-- The calls, with the one ahead, are inputs in the order of their acceptance, from before a disconnect. -/
  calls : calls (ios l) ++ calling p.pc <+: beforeDisconnect (pushed l)
  requested : ∀ l₁ l₂, ios l = l₁ ++ .recv (some .disconnect) :: l₂ → Driver.calls l₂ = []
  yielded : consumed (ios l) <+: arrived l
  relayed : relayed (sent (ios l)) <+: (consumed (ios l)).filterMap ChannelMsg.relay
  /-- No message is missing once nothing is ahead. -/
  relayedAll : ahead p.pc = [] → TinySsh.relayed (sent (ios l)) = (consumed (ios l)).filterMap ChannelMsg.relay
  /-- Every event is accounted for, label by label. -/
  events : sent (ios l) ++ ahead p.pc = .stateChanged .connecting :: (ios l).flatMap caused

/-- **The driver relays both directions, along every run.** -/
theorem relays {p : Pipe} {l : List Act} (h : Lts.run step {} l = some p) : Relays l p := by
  have hr := run_driver h
  have hd := delivered_of_run h
  have hflow := run_flow h
  have hrelayed := run_relayed hr hd
  refine ⟨?_, fun l₁ l₂ hios => run_requested (hios ▸ hr) (hios ▸ hd), ?_, ?_, fun hnil => ?_, run_events hr hd⟩
  · rw [run_calls hr hd, hflow.input]
    exact prefix_beforeDisconnect _ _
  · rw [hflow.remote]
    exact List.prefix_append _ _
  · rw [← hrelayed]
    exact List.prefix_append _ _
  · rw [← hrelayed, hnil]
    exact (List.append_nil _).symm

/-- Both directions at once: a write, a resize that fails, output before and after a message of another kind, and a
request to disconnect that leaves an input behind. -/
def crossing : List Act :=
  opening ++ [.push (.bytes [0x61]), .arrive (.data [0x78]), .arrive .eof, .push (.resize 80 24),
    .drv (.recv (some (.bytes [0x61]))), .push .disconnect, .drv (.write [0x61] (.ok ())),
    .drv (.wait (some (.data [0x78]))), .arrive (.extendedData [0x79] 1), .drv (.send (.output [0x78]) true),
    .drv (.recv (some (.resize 80 24))), .drv (.resize 80 24 (.error (.resize "closed"))), .push (.bytes [0x62]),
    .drv (.send (.error "resize failed: closed") true), .drv (.wait (some .eof)),
    .drv (.wait (some (.extendedData [0x79] 1))), .drv (.send (.stderr [0x79]) true),
    .drv (.recv (some .disconnect)), .drv (.close (.ok ()))]

theorem relays_crossing : ∃ p, Lts.run step {} crossing = some p ∧ Relays crossing p ∧
    calls (ios crossing) = [.bytes [0x61], .resize 80 24] ∧
    relayed (sent (ios crossing)) = [.output [0x78], .stderr [0x79]] := by
  obtain ⟨p, h⟩ : ∃ p, Lts.run step {} crossing = some p := ⟨_, rfl⟩
  exact ⟨p, h, relays h, by decide, by decide⟩

end Pipe

end TinySsh
