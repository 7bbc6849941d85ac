import TinySsh.Ui.Mirror
import TinySsh.Session.Wait

/-!
# Coming to rest

What the system does by itself, between two events from outside: it takes a bounded number of steps for each of them
(`never_spins`), and it stops only when it is over, deadlocked, or idle with everything delivered (`run_rests`).

The calls of the SSH library are taken to complete. A handshake that the server does not answer, or a write into an
exhausted window, is a step that the driver can still take here and not a state of rest.
-/

namespace TinySsh

open Text Driver

/-! ## Work that is left -/

def UiPc.work : UiPc → Nat
  | .select => 3
  | .sending _ _ => 8
  | .closing => 2
  | .returned => 1
  | .dropped => 0

/-- The steps that are left in the system. -/
def System.work {V : Type} (s : System V) : Nat := s.ui.work + 6 * s.term.length + s.pipe.work

/-- Not a step of the user, the remote or the local terminal. -/
def SysAct.inner : SysAct → Bool
  | .typed _ | .leave | .arrive _ | .hangup => false
  | _ => true

namespace System

variable {V : Type} [Vt V] {s s' : System V} {a : SysAct} {l : List SysAct} {host user : Str} {cols rows : Nat}
  {history₀ : History}

/-- Nobody has anything to do before something comes from outside. -/
structure Idle (s : System V) : Prop where
  ui : s.ui = .select
  term : s.term = []
  pc : s.pipe.pc = .select
  input : s.pipe.input = []
  remote : s.pipe.remote = []
  events : s.pipe.events = []
  open' : s.pipe.ended = false

end System

namespace System

variable {V : Type} [Vt V] {s s' : System V} {a : SysAct} {l : List SysAct} {host user : Str} {cols rows : Nat}
  {history₀ : History}

omit [Vt V] in
theorem ui_resume_ne (s : System V) (r : App V × Bool) : (s.resume r).ui ≠ .dropped := by
  rcases ui_resume (s := s) r with hui | hui <;> rw [hui] <;> exact fun h => nomatch h

/-- The driver is aborted when the handle is dropped, and only then. -/
theorem aborted_step (h : s.pipe.aborted = true ↔ s.ui = .dropped) (hs : s.step a = some s') :
    s'.pipe.aborted = true ↔ s'.ui = .dropped := by
  have hboth : ∀ {t : System V}, t.pipe.aborted = false → t.ui ≠ .dropped →
      (t.pipe.aborted = true ↔ t.ui = .dropped) := fun hno hui => iff_of_false (by rw [hno]; decide) hui
  have hselect : ∀ {pc : UiPc}, s.ui = pc → pc ≠ .dropped → s.pipe.aborted = false := fun hui hne => by
    rw [← Bool.not_eq_true, h, hui]
    exact hne
  cases stepped_of_step hs with
  | typed => exact h
  | handled hui => exact h
  | sends hui => exact hboth (hselect hui (fun h => nomatch h)) (fun h => nomatch h)
  | sent hui hp =>
    refine hboth ?_ (ui_resume_ne _ _)
    rw [pipe_resume]
    exact Pipe.aborted_of_step hp (fun h => nomatch h)
  | detached hui hpc =>
    refine hboth ?_ (ui_resume_ne _ _)
    rw [pipe_resume]
    exact hselect hui (fun h => nomatch h)
  | receive hui ht hp =>
    refine hboth (Pipe.aborted_of_step hp (fun h => nomatch h)) fun hd => ?_
    rw [hui] at hd
    cases hd
  | closed hui ht hp => exact hboth (Pipe.aborted_of_step hp (fun h => nomatch h)) (fun h => nomatch h)
  | streamEnd hui | leave hui | finalize hui => exact hboth (hselect hui (fun h => nomatch h)) (fun h => nomatch h)
  | drop hui hp =>
    cases (Pipe.stepped_of_step hp).2 with
    | drop => exact iff_of_true rfl rfl
  | drv hp | arrive hp | hangup hp =>
    have hno := Pipe.aborted_of_step hp (fun h => nomatch h)
    have hno' := (Pipe.stepped_of_step hp).1
    refine hboth hno fun hd => ?_
    rw [h.2 hd] at hno'
    cases hno'

/-- **Where the system takes no step by itself**, it is over, deadlocked or idle. -/
theorem rests_of_stuck (hwf : s.app.Wf) (hab : s.pipe.aborted = true ↔ s.ui = .dropped)
    (hin : s.pipe.input.length ≤ inputCap) (hev : s.pipe.events.length ≤ eventCap)
    (h : ∀ a : SysAct, a.inner = true → s.step a = none) : s.ui = .dropped ∨ s.Deadlocked ∨ s.Idle := by
  by_cases hdrop : s.ui = .dropped
  · exact .inl hdrop
  have hno : s.pipe.aborted = false := by
    rw [← Bool.not_eq_true, hab]
    exact hdrop
  have hdrv : ∀ io, s.pipe.step (.drv io) = none := fun io => by simpa [step, session] using h (.drv io) rfl
  have hrests := Pipe.rests hno hev hdrv
  right
  cases hui : s.ui with
  | dropped => exact absurd hui hdrop
  | returned =>
    have hnone := h .drop rfl
    simp [step, hui, session, Pipe.step, hno] at hnone
  | closing =>
    have hnone := h .finalize rfl
    simp [step, hui] at hnone
  | sending cmd after =>
    have hdone : s.pipe.pc ≠ .done := fun hpc => by
      have hnone := h (.detached cmd) rfl
      simp [step, hpc, complete, hui] at hnone
    have hfull : s.pipe.input.length = inputCap := by
      by_contra hne
      have hlt : s.pipe.input.length < inputCap := by omega
      have hnone := h (.sent cmd) rfl
      simp [step, session, Pipe.step, hno, hdone, hlt, complete, hui] at hnone
    have hblocked : s.sendBlocked = true := by simp [sendBlocked, hui, hdone, hfull]
    rcases hrests with hpc | hsend | ⟨-, hinput, -⟩
    · exact absurd hpc hdone
    · exact .inl ⟨hblocked, hsend⟩
    · rw [hinput] at hfull
      cases hfull
  | select =>
    right
    have hterm : s.term = [] := by
      rcases hterm : s.term with _ | ⟨ev, term⟩
      · rfl
      · obtain ⟨⟨app, history, send⟩, hh⟩ := Option.isSome_iff_exists.1 (handle_isSome hwf s.history (.stable 0) ev)
        have hnone := h (.handle ev (.stable 0)) rfl
        rcases send with _ | ⟨cmd, after⟩ <;> simp [step, hui, hterm, hh] at hnone
    have hevents : s.pipe.events = [] := by
      rcases hevents : s.pipe.events with _ | ⟨ev, events⟩
      · rfl
      · have hnone := h (.receive ev) rfl
        simp [step, hui, hterm, session, Pipe.step, hno, hevents] at hnone
    rcases hrests with hpc | hsend | ⟨hpc, hinput, hremote, hended⟩
    · have hnone := h .streamEnd rfl
      simp [step, hui, hterm, hevents, hpc] at hnone
    · unfold Pipe.sendBlocked at hsend
      split at hsend
      · rw [hevents] at hsend
        cases of_decide_eq_true hsend
      · cases hsend
    · exact ⟨hui, hterm, hpc, hinput, hremote, hevents, hended⟩

omit [Vt V] in
theorem Idle.starved (h : s.Idle) : s.pipe.Starved := ⟨h.pc, h.input, h.remote, h.open'⟩

/-- A system that is over, deadlocked or idle takes no step by itself. -/
theorem stuck_of_rests (hab : s.pipe.aborted = true ↔ s.ui = .dropped)
    (h : s.ui = .dropped ∨ s.Deadlocked ∨ s.Idle) (ha : a.inner = true) : s.step a = none := by
  by_contra hne
  obtain ⟨s', hs⟩ := Option.ne_none_iff_exists'.1 hne
  have hst := stepped_of_step hs
  rcases h with hui | ⟨hui, hpipe⟩ | hidle
  · have hno : ∀ {act : Act} {pipe : Pipe}, s.pipe.step act = some pipe → False := fun hp => by
      have hlive := (Pipe.stepped_of_step hp).1
      rw [hab.2 hui] at hlive
      cases hlive
    cases hst with
    | handled hui' | sends hui' | detached hui' | streamEnd hui' | finalize hui' => rw [hui] at hui'; cases hui'
    | sent _ hp | receive _ _ hp | closed _ _ hp | drop _ hp | drv hp => exact hno hp
    | _ => cases ha
  · unfold sendBlocked at hui
    split at hui
    · rename_i cmd after hsending
      simp only [Bool.and_eq_true, decide_eq_true_eq] at hui
      cases hst with
      | sent _ hp =>
        cases (Pipe.stepped_of_step hp).2 with
        | push _ hlt => omega
      | detached _ hpc => exact hui.1 hpc
      | drv hp => exact not_drv_of_sendBlocked hpipe hp
      | handled hui' | sends hui' | receive hui' | closed hui' | streamEnd hui' | finalize hui' | drop hui' =>
        rw [hsending] at hui'
        cases hui'
      | _ => cases ha
    · cases hui
  · cases hst with
    | handled _ ht | sends _ ht => rw [hidle.term] at ht; cases ht
    | sent hui' | detached hui' | finalize hui' | drop hui' => rw [hidle.ui] at hui'; cases hui'
    | receive _ _ hp | closed _ _ hp =>
      cases (Pipe.stepped_of_step hp).2 with
      | pop hev => rw [hidle.events] at hev; cases hev
    | streamEnd _ _ _ hpc => rw [hidle.pc] at hpc; cases hpc
    | drv hp => exact Pipe.not_drv_of_starved hidle.starved hp
    | _ => cases ha

/-- **A run comes to rest when it is over, when the two tasks are deadlocked, or when the session is idle, and only
then**, where the calls of the SSH library complete. Where it is idle, everything that arrived has been handed to the
application and everything sent to the driver has been called. -/
theorem run_rests (h : Lts.run step (System.new host user cols rows history₀) l = some s) :
    ((∀ a : SysAct, a.inner = true → s.step a = none) ↔ s.ui = .dropped ∨ s.Deadlocked ∨ s.Idle) ∧
    (s.Idle → fed l = (arrived (acts l)).flatMap ChannelMsg.bytes ∧ calls (ios (acts l)) = pushed (acts l)) := by
  have hp := run_pipe h
  have hflow := Pipe.run_flow hp
  have hI := Lts.run_inv
    (I := fun s : System V => Reached host user history₀ s.app s.history ∧ (s.pipe.aborted = true ↔ s.ui = .dropped))
    (fun hI hs => ⟨reached_step hI.1 hs, aborted_step hI.2 hs⟩)
    ⟨Reached.new host user history₀ cols rows, (fun h => by cases h), fun h => by cases h⟩ h
  refine ⟨⟨rests_of_stuck hI.1.ok.wf hI.2 hflow.inputLe hflow.eventsLe, fun h a ha => stuck_of_rests hI.2 h ha⟩, ?_⟩
  intro hidle
  refine ⟨(Pipe.run_output hp).2 hidle.events hidle.remote (by rw [hidle.pc]; rfl), ?_⟩
  have hcalls := run_calls (Pipe.run_driver hp) (Pipe.delivered_of_run hp)
  have hinput := hflow.input
  rw [hidle.input, List.append_nil] at hinput
  have hcalling : calling s.pipe.pc = [] := by rw [hidle.pc]; rfl
  rw [hcalling, List.append_nil, ← hinput] at hcalls
  rw [hcalls]
  refine beforeDisconnect_of_notMem fun hmem => ?_
  have hret := ((run_requests h).last hmem).1
  rw [hidle.ui] at hret
  rcases hret with hret | hret <;> cases hret

/-- The shell is open, a letter is typed and echoed, and everything has been received. -/
def echoed : List SysAct :=
  opening ++ letterTyped ++
  [.drv (.recv (some (.bytes [0x61]))), .drv (.write [0x61] (.ok ())), .arrive (.data [0x61]),
   .drv (.wait (some (.data [0x61]))), .drv (.send (.output [0x61]) true), .receive (.stateChanged .connecting),
   .receive (.stateChanged .authenticated), .receive (.stateChanged .shellOpen), .receive (.output [0x61])]

theorem rests_echoed : ∃ s : System MiniVt, Lts.run step (System.new ['h'] ['u'] 80 24 {}) echoed = some s ∧
    (∀ a : SysAct, a.inner = true → s.step a = none) ∧ fed echoed = [0x61] ∧
    calls (ios (acts echoed)) = [.bytes [0x61]] := by
  have hend : (Lts.run step (System.new ['h'] ['u'] 80 24 {} : System MiniVt) echoed).map
      (fun s => ((s.ui, s.term, s.pipe.pc), (s.pipe.input, s.pipe.remote.length), s.pipe.events, s.pipe.ended)) =
        some ((.select, [], .select), ([], 0), [], false) := by decide +kernel
  obtain ⟨s, hs, hend⟩ := Option.map_eq_some_iff.1 hend
  simp only [Prod.mk.injEq] at hend
  obtain ⟨⟨hui, hterm, hpc⟩, ⟨hinput, hremote⟩, hevents, hended⟩ := hend
  have hidle : s.Idle := ⟨hui, hterm, hpc, hinput, List.length_eq_zero_iff.1 hremote, hevents, hended⟩
  obtain ⟨hstuck, hall⟩ := run_rests hs
  obtain ⟨hfed, hcalls⟩ := hall hidle
  exact ⟨s, hs, hstuck.2 (.inr (.inr hidle)), hfed.trans (by decide), hcalls.trans (by decide)⟩

end System

end TinySsh
