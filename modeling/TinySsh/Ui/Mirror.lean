import TinySsh.Ui.Reach
import TinySsh.Session.Relay

/-!
# From the remote to the application, and back

The two directions of a session from end to end, through the terminal's events, the application, both channels and the
driver, in any interleaving.

* `run_mirrors`: the application has been fed an initial part of what the remote sent, in order, and what it knows of
  the remote's directory is the last report in it.
* `run_typed`: what is written to the remote is an initial part of what the handled terminal events ask for.
-/

namespace TinySsh

open Text Driver

/-! ## Output -/

/-- The output that an event carries. -/
def SessionEvent.bytes : SessionEvent → List UInt8
  | .output bytes | .stderr bytes => bytes
  | _ => []

/-- The output that a message of the channel carries. -/
def ChannelMsg.bytes (m : ChannelMsg) : List UInt8 := m.relay.toList.flatMap SessionEvent.bytes

/-- The output that the application has been fed along a run. -/
def fed (l : List SysAct) : List UInt8 := (popped (acts l)).flatMap SessionEvent.bytes

theorem fed_concat (l : List SysAct) (a : SysAct) :
    fed (l ++ [a]) = fed l ++ ((a.act.bind Act.poppedEvent).toList).flatMap SessionEvent.bytes := by
  rw [fed, fed, System.acts_concat]
  cases a.act with
  | none => simp
  | some act =>
    rw [Option.toList_some, popped_concat, List.flatMap_append]
    rfl

/-- The command of a send under way. -/
def UiPc.command : UiPc → List SessionInput
  | .sending cmd _ => [cmd]
  | _ => []

/-- Only the events that stand for messages carry output. -/
theorem flatMap_relayed (evs : List SessionEvent) :
    (relayed evs).flatMap SessionEvent.bytes = evs.flatMap SessionEvent.bytes := by
  induction evs with
  | nil => rfl
  | cons ev evs ih =>
    have hcons : relayed (ev :: evs) = (if isRelayed ev then [ev] else []) ++ relayed evs := by
      cases h : isRelayed ev <;> simp [relayed, h]
    rw [hcons, List.flatMap_append, ih]
    cases ev <;> simp [isRelayed, SessionEvent.bytes]

theorem flatMap_relay (ms : List ChannelMsg) :
    (ms.filterMap ChannelMsg.relay).flatMap SessionEvent.bytes = ms.flatMap ChannelMsg.bytes := by
  induction ms with
  | nil => rfl
  | cons m ms ih =>
    rw [List.filterMap_cons, List.flatMap_cons, ← ih]
    cases h : m.relay <;> simp [ChannelMsg.bytes, h]

/-- **What the handle receives is an initial part of what the remote sent**, and all of it once nothing is on its
way. -/
theorem Pipe.run_output {l : List Act} {p : Pipe} (h : Lts.run Pipe.step {} l = some p) :
    (popped l).flatMap SessionEvent.bytes <+: (arrived l).flatMap ChannelMsg.bytes ∧
    (p.events = [] → p.remote = [] → ahead p.pc = [] →
      (popped l).flatMap SessionEvent.bytes = (arrived l).flatMap ChannelMsg.bytes) := by
  have hflow := Pipe.run_flow h
  have hrelayed := run_relayed (Pipe.run_driver h) (Pipe.delivered_of_run h)
  constructor
  · have hpop : popped l <+: sent (ios l) := hflow.events ▸ List.prefix_append _ _
    have hsent : (sent (ios l)).flatMap SessionEvent.bytes <+: (consumed (ios l)).flatMap ChannelMsg.bytes := by
      rw [← flatMap_relayed, ← flatMap_relay, ← hrelayed]
      exact (List.prefix_append _ _).flatMap _
    have harr : consumed (ios l) <+: arrived l := hflow.remote ▸ List.prefix_append _ _
    exact ((hpop.flatMap _).trans hsent).trans (harr.flatMap _)
  · intro hev hrem hahead
    have hpop : popped l = sent (ios l) := by rw [hflow.events, hev, List.append_nil]
    have harr : arrived l = consumed (ios l) := by rw [hflow.remote, hrem, List.append_nil]
    have hall : relayed (sent (ios l)) = (consumed (ios l)).filterMap ChannelMsg.relay := by
      rw [← hrelayed, hahead]
      exact (List.append_nil _).symm
    rw [hpop, harr, ← flatMap_relayed, hall, flatMap_relay]

variable {V : Type} [Vt V]

/-- The scanner has seen these bytes, and the directory is the last one that they report. -/
structure Mirrors (bytes : List UInt8) (app : App V) : Prop where
  scanner : app.terminal.oscScanner = ({} : OscScanner).after bytes
  cwd : app.cwd = App.lastCwd (({} : OscScanner).events bytes)

section Mirrors

variable {app app' : App V} {bytes : List UInt8}

omit [Vt V] in
theorem Mirrors.congr (h : Mirrors bytes app) (hscan : app'.terminal.oscScanner = app.terminal.oscScanner)
    (hcwd : app'.cwd = app.cwd) : Mirrors bytes app' := ⟨hscan.trans h.scanner, hcwd.trans h.cwd⟩

/-- A chunk of output adds to the bytes. -/
theorem Mirrors.onOutput (h : Mirrors bytes app) (hok : app.Ok) (chunk : List UInt8) :
    Mirrors (bytes ++ chunk) (app.onOutput chunk) := by
  have happend := OscScanner.scan_append (s := {}) (a := bytes) (b := chunk)
  rw [App.onOutput_eq, hok.outEvents_eq]
  refine ⟨?_, ?_⟩
  · simp only [Terminal.feed_eq]
    rw [happend.1, h.scanner]
  · dsimp only
    rw [happend.2, App.lastCwd_append, h.scanner, h.cwd]

theorem Mirrors.onSessionEvent (h : Mirrors bytes app) (hok : app.Ok) (ev : SessionEvent) :
    Mirrors (bytes ++ ev.bytes) (app.onSessionEvent ev) := by
  cases ev with
  | output chunk | stderr chunk => exact h.onOutput hok chunk
  | _ =>
    have hsame : Mirrors (bytes ++ []) app := by rwa [List.append_nil]
    exact Mirrors.congr hsame rfl rfl

theorem Mirrors.handled {history history' : History} {env : Env} {ev : TermEvent}
    {send : Option (SessionInput × After)} (h : Mirrors bytes app) (hok : app.Ok)
    (hh : Handled app history env ev app' history' send) : Mirrors bytes app' := by
  cases hh with
  | key hk hr =>
    cases App.keyStep_of_onKey hok.wf hr with
    | captured | accepted => exact h.congr rfl rfl
    | silent => exact h
    | sent =>
      refine h.congr (congrArg _ (App.terminal_shadowStep _ _ _)) ?_
      unfold App.shadowStep
      cases App.keyCached _ <;> rfl
  | scrolled => exact h.congr rfl rfl
  | _ => exact h

theorem Mirrors.after (h : Mirrors bytes app) (after : After) (ok : Bool) : Mirrors bytes (after.run app ok).1 := by
  cases after with
  | report => cases ok <;> exact h.congr rfl rfl
  | quit => exact h
  | resized => exact h.congr rfl rfl

end Mirrors

namespace System

variable {s s' : System V} {a : SysAct} {l : List SysAct} {host user : Str} {cols rows : Nat} {history₀ : History}

omit [Vt V] in
theorem mirrors_resume {bytes : List UInt8} {r : App V × Bool} (h : Mirrors bytes r.1) :
    Mirrors bytes (s.resume r).app := by
  unfold resume
  split
  · exact h
  · exact h.congr rfl rfl

theorem mirrors_step (hok : s.app.Ok) (h : Mirrors (fed l) s.app) (hs : s.step a = some s') :
    Mirrors (fed (l ++ [a])) s'.app := by
  rw [fed_concat]
  cases stepped_of_step hs with
  | @handled ev env term app history hui ht hh =>
    have hm : Mirrors _ (loopTop app) := (h.handled hok (handled_of_handle hh)).congr rfl rfl
    simpa [SysAct.act] using hm
  | sends hui ht hh => simpa [SysAct.act] using h.handled hok (handled_of_handle hh)
  | @sent cmd after pipe hui hp =>
    simpa [SysAct.act, Act.poppedEvent] using mirrors_resume (h.after after true)
  | @detached cmd after hui hpc => simpa [SysAct.act] using mirrors_resume (h.after after false)
  | @receive ev pipe hui ht hp hev =>
    have hm : Mirrors _ (loopTop (s.app.onSessionEvent ev)) := (h.onSessionEvent hok ev).congr rfl rfl
    simpa [SysAct.act, Act.poppedEvent] using hm
  | closed hui ht hp => simpa [SysAct.act, Act.poppedEvent] using h.onSessionEvent hok .closed
  | _ => simpa [SysAct.act, Act.poppedEvent] using h

/-- **From the remote to the application, along every run**: the marker scanner has seen an initial part of what the
remote sent on either stream, in order and however it was cut, and all of it once nothing is on its way; the directory
that the application knows is the last one reported in it. -/
theorem run_mirrors (h : Lts.run step (System.new host user cols rows history₀) l = some s) :
    Mirrors (fed l) s.app ∧ fed l <+: (arrived (acts l)).flatMap ChannelMsg.bytes ∧
    (s.pipe.events = [] → s.pipe.remote = [] → ahead s.pipe.pc = [] →
      fed l = (arrived (acts l)).flatMap ChannelMsg.bytes) := by
  refine ⟨?_, Pipe.run_output (run_pipe h)⟩
  have hI := Lts.run_trace (Q := fun _ => True)
    (I := fun l (s : System V) => Reached host user history₀ s.app s.history ∧ Mirrors (fed l) s.app)
    (fun hI _ hs => ⟨reached_step hI.1 hs, mirrors_step hI.1.ok hI.2 hs⟩)
    ⟨Reached.new host user history₀ cols rows, rfl, rfl⟩ (fun _ _ => trivial) h
  exact hI.2

/-- A report of the directory `/a`, in two messages and on both streams, and the first half of another. -/
def reported : List SysAct :=
  opening ++
  [.arrive (.data [0x1b, 0x5d, 0x37, 0x3b, 0x66, 0x69, 0x6c, 0x65, 0x3a]),
   .arrive (.extendedData [0x2f, 0x2f, 0x2f, 0x61, 0x07, 0x1b, 0x5d] 1), .arrive (.data [0x37, 0x3b]),
   .receive (.stateChanged .connecting), .receive (.stateChanged .authenticated), .receive (.stateChanged .shellOpen),
   .drv (.wait (some (.data [0x1b, 0x5d, 0x37, 0x3b, 0x66, 0x69, 0x6c, 0x65, 0x3a]))),
   .drv (.send (.output [0x1b, 0x5d, 0x37, 0x3b, 0x66, 0x69, 0x6c, 0x65, 0x3a]) true),
   .receive (.output [0x1b, 0x5d, 0x37, 0x3b, 0x66, 0x69, 0x6c, 0x65, 0x3a]),
   .drv (.wait (some (.extendedData [0x2f, 0x2f, 0x2f, 0x61, 0x07, 0x1b, 0x5d] 1))),
   .drv (.send (.stderr [0x2f, 0x2f, 0x2f, 0x61, 0x07, 0x1b, 0x5d]) true),
   .receive (.stderr [0x2f, 0x2f, 0x2f, 0x61, 0x07, 0x1b, 0x5d])]

theorem mirrors_reported : ∃ s : System MiniVt, Lts.run step (System.new ['h'] ['u'] 80 24 {}) reported = some s ∧
    Mirrors (fed reported) s.app ∧ fed reported <+: (arrived (acts reported)).flatMap ChannelMsg.bytes ∧
    s.app.cwd = some ['/', 'a'] := by
  have hrun : (Lts.run step (System.new ['h'] ['u'] 80 24 {} : System MiniVt) reported).map (fun s => s.app.cwd) =
      some (some ['/', 'a']) := by decide +kernel
  obtain ⟨s, hs, hcwd⟩ := Option.map_eq_some_iff.1 hrun
  obtain ⟨hmirrors, hpre, -⟩ := run_mirrors hs
  exact ⟨s, hs, hmirrors, hpre, hcwd⟩

/-! ## Input -/

/-- What the handled terminal events ask of the driver. -/
def asking (s : System V) (asked : List SessionInput) : SysAct → List SessionInput
  | .handle ev env =>
    match handleTerminalEvent s.app s.history env ev with
    | some (_, _, some (cmd, _)) => asked ++ [cmd]
    | _ => asked
  | _ => asked

/-- The system, next to what was asked. -/
def askStep : System V × List SessionInput → SysAct → Option (System V × List SessionInput) :=
  Lts.withGhost step asking

/-- What was asked has been sent, but for the send under way; a driver that has terminated takes no more. -/
structure Asks (l : List SysAct) (s : System V × List SessionInput) : Prop where
  sent : pushed (acts l) <+: s.2
  all : s.1.pipe.pc ≠ .done → s.2 = pushed (acts l) ++ s.1.ui.command

omit [Vt V] in
theorem command_resume (r : App V × Bool) : (s.resume r).ui.command = [] := by
  unfold resume
  split <;> rfl

/-- A terminated driver stays so. -/
theorem ne_done_of_step (hs : s.step a = some s') (h : s'.pipe.pc ≠ .done) : s.pipe.pc ≠ .done := by
  intro hd
  have hrun := Lts.run_project Pipe.pc Act.io Pipe.pc_of_step (pipe_of_step hs)
  rw [hd] at hrun
  cases hios : a.act.toList.filterMap Act.io with
  | nil =>
    rw [hios] at hrun
    exact h (Option.some.inj hrun).symm
  | cons io ios =>
    rw [hios, Lts.run_cons] at hrun
    cases hrun

/-- A step that neither asks nor sends. -/
theorem Asks.of_silent {s : System V × List SessionInput} {t : System V} (h : Asks l s)
    (hpush : a.act.bind Act.pushedInput = none) (hask : asking s.1 s.2 a = s.2) (hui : t.ui.command = s.1.ui.command)
    (hpc : t.pipe.pc ≠ .done → s.1.pipe.pc ≠ .done) : Asks (l ++ [a]) (t, asking s.1 s.2 a) := by
  have hpushed : pushed (acts (l ++ [a])) = pushed (acts l) := by
    rw [pushed_acts_concat, hpush]
    exact List.append_nil _
  rw [hask]
  refine ⟨hpushed ▸ h.sent, fun hd => ?_⟩
  rw [hpushed, hui]
  exact h.all (hpc hd)

theorem asks_step {s s' : System V × List SessionInput} (h : Asks l s) (hs : askStep s a = some s') :
    Asks (l ++ [a]) s' := by
  obtain ⟨t, ht, rfl⟩ := Option.map_eq_some_iff.1 hs
  have hpc := ne_done_of_step ht
  cases stepped_of_step ht with
  | handled hui hterm hh => exact h.of_silent rfl (by simp only [asking, hh]) rfl hpc
  | @sends ev env term app history cmd after hui hterm hh =>
    have hask : asking s.1 s.2 (.handle ev env) = s.2 ++ [cmd] := by simp only [asking, hh]
    have hpushed : pushed (acts (l ++ [.handle ev env])) = pushed (acts l) := by
      rw [pushed_acts_concat]
      exact List.append_nil _
    rw [hask]
    refine ⟨hpushed ▸ h.sent.trans (List.prefix_append _ _), fun hd => ?_⟩
    rw [hpushed, h.all (hpc hd), hui]
    simp [UiPc.command]
  | @sent cmd after pipe hui hp =>
    -- the driver takes the send, so nothing but it was missing
    have hne : s.1.pipe.pc ≠ .done := by
      cases (Pipe.stepped_of_step hp).2 with
      | push hne => exact hne
    have hall : s.2 = pushed (acts (l ++ [.sent cmd])) := by
      rw [pushed_acts_concat, h.all hne, hui]
      rfl
    refine ⟨hall ▸ List.prefix_rfl, fun _ => ?_⟩
    rw [command_resume, List.append_nil]
    exact hall
  | @detached cmd after hui hdone =>
    have hsame : pushed (acts (l ++ [.detached cmd])) = pushed (acts l) := by
      rw [pushed_acts_concat]
      exact List.append_nil _
    refine ⟨hsame ▸ h.sent, fun hd => ?_⟩
    rw [pipe_resume] at hd
    exact absurd hdone hd
  | closed hui | streamEnd hui | leave hui | finalize hui | drop hui =>
    exact h.of_silent rfl rfl (by rw [hui]; rfl) hpc
  | typed | receive | drv | arrive | hangup => exact h.of_silent rfl rfl rfl hpc

/-- What was asked along a run. -/
theorem run_asks (h : Lts.run step (System.new host user cols rows history₀) l = some s) :
    ∃ asked, Lts.run askStep (System.new host user cols rows history₀, []) l = some (s, asked) ∧ Asks l (s, asked) := by
  have hghost : (Lts.run askStep (System.new host user cols rows history₀, []) l).map Prod.fst = some s :=
    Lts.run_withGhost.trans h
  obtain ⟨⟨t, asked⟩, hr, rfl⟩ := Option.map_eq_some_iff.1 hghost
  exact ⟨asked, hr, Lts.run_trace (Q := fun _ => True) (I := Asks) (fun h _ hs => asks_step h hs)
    ⟨List.prefix_rfl, fun _ => rfl⟩ (fun _ _ => trivial) hr⟩

/-- The calls of the driver, and what was asked. -/
theorem calls_of_asks {asked : List SessionInput}
    (h : Lts.run step (System.new host user cols rows history₀) l = some s) (hasks : Asks l (s, asked)) :
    calls (ios (acts l)) <+: beforeDisconnect asked ∧
      (s.ui.command = [] → s.pipe.input = [] → calling s.pipe.pc = [] → s.pipe.pc ≠ .done →
        calls (ios (acts l)) = beforeDisconnect asked) := by
  have hp := run_pipe h
  have hcalls := run_calls (Pipe.run_driver hp) (Pipe.delivered_of_run hp)
  have hflow := (Pipe.run_flow hp).input
  refine ⟨?_, fun hui hin hcalling hd => ?_⟩
  · obtain ⟨rest, hrest⟩ := hasks.sent
    have htaken : asked = taken (ios (acts l)) ++ (s.pipe.input ++ rest) := by
      rw [← List.append_assoc, ← hflow]
      exact hrest.symm
    rw [htaken]
    refine (List.prefix_append _ (calling s.pipe.pc)).trans ?_
    rw [hcalls]
    exact prefix_beforeDisconnect _ _
  · rw [hin, List.append_nil] at hflow
    rw [hcalling, List.append_nil] at hcalls
    rw [hcalls, ← hflow]
    have hall := hasks.all hd
    rw [hui, List.append_nil] at hall
    rw [← hall]

/-- **From the terminal to the remote, along every run**: the calls of the driver on the channel are an initial part of
what the handled terminal events ask for up to a request to disconnect, in order, and all of it once nothing is on its
way to a driver that runs. -/
theorem run_typed (h : Lts.run step (System.new host user cols rows history₀) l = some s) :
    ∃ asked, Lts.run askStep (System.new host user cols rows history₀, []) l = some (s, asked) ∧
      calls (ios (acts l)) <+: beforeDisconnect asked ∧
      (s.ui.command = [] → s.pipe.input = [] → calling s.pipe.pc = [] → s.pipe.pc ≠ .done →
        calls (ios (acts l)) = beforeDisconnect asked) := by
  obtain ⟨asked, hr, hasks⟩ := run_asks h
  exact ⟨asked, hr, calls_of_asks h hasks⟩

/-- The driver makes the write of the letter; Enter and the resize wait for it. -/
theorem typed_command : ∃ (s : System MiniVt) (asked : List SessionInput),
    Lts.run askStep (System.new ['h'] ['u'] 80 24 {}, []) (commandTyped ++ [.drv (.write [0x61] (.ok ()))]) =
      some (s, asked) ∧
    asked = [.bytes [0x61], .bytes [0x0d], .resize 40 9] ∧
    calls (ios (acts (commandTyped ++ [.drv (.write [0x61] (.ok ()))]))) <+: beforeDisconnect asked := by
  have hasked : (Lts.run askStep ((System.new ['h'] ['u'] 80 24 {} : System MiniVt), [])
      (commandTyped ++ [.drv (.write [0x61] (.ok ()))])).map Prod.snd =
      some [.bytes [0x61], .bytes [0x0d], .resize 40 9] := by decide +kernel
  obtain ⟨⟨s, asked⟩, hs, rfl⟩ := Option.map_eq_some_iff.1 hasked
  obtain ⟨asked', hs', hpre, -⟩ := run_typed (Lts.run_of_withGhost hs)
  obtain rfl : asked' = _ := congrArg Prod.snd (Option.some.inj (hs'.symm.trans hs))
  exact ⟨s, _, hs, rfl, hpre⟩

end System

end TinySsh
