import TinySsh.Ui
import TinySsh.Session.Drain

/-!
# Quitting

Ctrl-Q queues a request to disconnect and returns from `drive` (`ui_handle_quit`, `sent_quit`), and no other event
queues one (`exists_quit_of_sent`). The drop of the handle then aborts the driver wherever it is. The shutdown is clean
exactly when the driver has come past its last call by then (`cleanQuit_iff`).
-/

namespace TinySsh

open Text Driver

/-! ## Ctrl-Q -/

/-- A press of Ctrl-Q. -/
def TermEvent.isQuit : TermEvent → Bool
  | .key press => press.kind != .release && (press.modifiers.control && press.code = .char 'q')
  | _ => false

/-- No other key quits. -/
theorem App.ctrlQ_of_quit {V : Type} [Vt V] {app app' : App V} {key : KeyEvent} {history history' : History} {env : Env}
    (h : app.onKey key history env = some (app', history', .quit)) :
    (key.modifiers.control && key.code = .char 'q') = true := by
  by_contra hquit
  simp only [onKey, if_neg hquit] at h
  split at h
  · cases h
  split at h
  · cases h
  split at h
  · obtain ⟨_, -, h⟩ := Option.bind_eq_some_iff.1 h
    obtain ⟨_, -, h⟩ := Option.bind_eq_some_iff.1 h
    cases h
  split at h
  · cases h
  · obtain ⟨_, -, h⟩ := Option.bind_eq_some_iff.1 h
    cases h

/-! ## The driver after a request to disconnect -/

/-- A label that neither fails nor closes the channel. -/
def SysAct.Healthy : SysAct → Prop
  | .drv (.connect (.error _)) | .drv (.openShell (.error _)) | .drv (.write _ (.error _)) | .arrive .close | .hangup =>
    False
  | _ => True

/-- From the close of the channel, the driver disconnects before it is past its calls. -/
theorem Driver.run_close {k : List Io} {pc : Pc} (h : Lts.run step .close k = some pc)
    (hpc : disconnects pc = false) : (∃ r, .close r ∈ k) ∧ ∃ r, .disconnect r ∈ k := by
  cases k with
  | nil => cases h; cases hpc
  | cons a k =>
    obtain ⟨q, hq, h⟩ := Lts.run_cons_some h
    cases a with
    | close r =>
      cases hq
      cases k with
      | nil => cases h; cases hpc
      | cons b k =>
        obtain ⟨q, hq, h⟩ := Lts.run_cons_some h
        cases b with
        | disconnect r' => exact ⟨⟨r, by simp⟩, r', by simp⟩
        | _ => simp [Driver.step, finish] at hq
    | _ => simp [Driver.step] at hq

theorem Pipe.hangup_of_ended {l : List Act} {p : Pipe} (h : Lts.run Pipe.step {} l = some p) (he : p.ended = true) :
    .hangup ∈ l := by
  have hI := Lts.run_trace (Q := fun _ => True) (I := fun l (p : Pipe) => p.ended = true → Act.hangup ∈ l)
    (fun {l p a p'} hI _ hs he => ?_) (fun he => by cases he) (fun _ _ => trivial) h
  · exact hI he
  · obtain ⟨-, hst⟩ := stepped_of_step hs
    cases hst with
    | drv hpc hq => cases hq <;> exact List.mem_append_left _ (hI he)
    | hangup => simp
    | _ => exact List.mem_append_left _ (hI he)

namespace System

variable {V : Type} {s s' : System V} {a : SysAct} {l : List SysAct}

theorem acts_concat (l : List SysAct) (a : SysAct) : acts (l ++ [a]) = acts l ++ a.act.toList := filterMap_concat _ _ _

theorem pushed_acts_concat (l : List SysAct) (a : SysAct) :
    pushed (acts (l ++ [a])) = pushed (acts l) ++ (a.act.bind Act.pushedInput).toList := by
  rw [acts_concat]
  cases a.act with
  | none => simp
  | some act => exact pushed_concat _ _

theorem mem_of_mem_acts {act : Act} (h : act ∈ acts l) : ∃ a ∈ l, a.act = some act := List.mem_filterMap.1 h

/-- A request to disconnect is the last input of the session. -/
structure Requests (l : List SysAct) (s : System V) : Prop where
  quit : ∀ after, s.ui = .sending .disconnect after → after = .quit
  last : .disconnect ∈ pushed (acts l) → (s.ui = .returned ∨ s.ui = .dropped) ∧
    ∃ cmds, pushed (acts l) = cmds ++ [.disconnect] ∧ .disconnect ∉ cmds

theorem not_sending_resume (r : App V × Bool) (cmd : SessionInput) (after : After) :
    (s.resume r).ui ≠ .sending cmd after := by
  unfold resume
  split <;> exact fun h => nomatch h

/-- Steps that send no input and neither start a send nor leave the final control points keep the invariant. -/
theorem Requests.of_silent (h : Requests l s) (ha : a.act.bind Act.pushedInput = none)
    (hsend : ∀ after, s'.ui = .sending .disconnect after → after = .quit)
    (hui : s.ui = .returned ∨ s.ui = .dropped → s'.ui = .returned ∨ s'.ui = .dropped) : Requests (l ++ [a]) s' := by
  have hpush : pushed (acts (l ++ [a])) = pushed (acts l) := by rw [pushed_acts_concat, ha]; exact List.append_nil _
  refine ⟨hsend, fun hmem => ?_⟩
  rw [hpush] at hmem ⊢
  exact ⟨hui (h.last hmem).1, (h.last hmem).2⟩

variable [Vt V]

/-- Ctrl-Q asks to disconnect, and changes nothing. -/
theorem handle_quit {ev : TermEvent} (h : ev.isQuit = true) (app : App V) (history : History) (env : Env) :
    handleTerminalEvent app history env ev = some (app, history, some (.disconnect, .quit)) := by
  cases ev with
  | key key =>
    obtain ⟨hkind, hquit⟩ := Bool.and_eq_true_iff.1 h
    rw [bne_iff_ne] at hkind
    have hkey : app.onKey key history env = some (app, history, .quit) := if_pos hquit
    simp [handleTerminalEvent, hkind, hkey]
  | _ => cases h

/-- Only Ctrl-Q asks to disconnect. -/
theorem quit_of_disconnect {app app' : App V} {history history' : History} {env : Env} {ev : TermEvent} {after : After}
    (h : handleTerminalEvent app history env ev = some (app', history', some (.disconnect, after))) :
    ev.isQuit = true ∧ after = .quit := by
  cases ev with
  | key key =>
    simp only [handleTerminalEvent] at h
    split at h
    · cases h
    · rename_i hkind
      obtain ⟨⟨app₁, history₁, action⟩, hkey, h⟩ := Option.bind_eq_some_iff.1 h
      cases action <;> cases h
      exact ⟨Bool.and_eq_true_iff.2 ⟨bne_iff_ne.2 hkind, App.ctrlQ_of_quit hkey⟩, rfl⟩
  | mouse mouse =>
    simp only [handleTerminalEvent] at h
    split at h
    · cases h
    · split at h <;> cases h
  | _ => cases h

/-- **A handled Ctrl-Q is a request to disconnect that waits for room in the queue.** -/
theorem ui_handle_quit {ev : TermEvent} {env : Env} (h : ev.isQuit = true) (hs : s.step (.handle ev env) = some s') :
    s'.ui = .sending .disconnect .quit := by
  cases stepped_of_step hs with
  | handled _ _ hh =>
    rw [handle_quit h] at hh
    cases hh
  | sends _ _ hh =>
    rw [handle_quit h] at hh
    cases hh
    rfl

/-- Once there is room, the request is the last one in the queue, and `drive` returns. -/
theorem sent_quit (hui : s.ui = .sending .disconnect .quit) (hs : s.step (.sent .disconnect) = some s') :
    s'.pipe.input = s.pipe.input ++ [.disconnect] ∧ s'.ui = .returned := by
  cases stepped_of_step hs with
  | sent hui' hp =>
    rw [hui] at hui'
    cases hui'
    cases (Pipe.stepped_of_step hp).2 with
    | push => exact ⟨rfl, rfl⟩

/-- A request to disconnect that is sent or waits to be sent is a Ctrl-Q that was handled. -/
def QuitHandled (l : List SysAct) (s : System V) : Prop :=
  .sent .disconnect ∈ l ∨ (∃ after, s.ui = .sending .disconnect after) → ∃ ev env, .handle ev env ∈ l ∧ ev.isQuit = true

theorem quitHandled_step (h : QuitHandled l s) (hs : s.step a = some s') : QuitHandled (l ++ [a]) s' := by
  have hold : (.sent .disconnect ∈ l ∨ ∃ after, s.ui = .sending .disconnect after) →
      ∃ ev env, .handle ev env ∈ l ++ [a] ∧ ev.isQuit = true := fun hreq => by
    obtain ⟨ev, env, hmem, hquit⟩ := h hreq
    exact ⟨ev, env, List.mem_append_left _ hmem, hquit⟩
  rintro (hsent | ⟨after, hui⟩)
  · rcases List.mem_append.1 hsent with hmem | hlast
    · exact hold (.inl hmem)
    · obtain rfl := List.mem_singleton.1 hlast
      cases stepped_of_step hs with
      | sent hui => exact hold (.inr ⟨_, hui⟩)
  · cases stepped_of_step hs with
    | sends _ _ hh =>
      cases hui
      exact ⟨_, _, List.mem_append_right _ (List.mem_singleton.2 rfl), (quit_of_disconnect hh).1⟩
    | sent | detached => exact absurd hui (not_sending_resume _ _ _)
    | closed | streamEnd | leave | finalize | drop => exact nomatch hui
    | _ => exact hold (.inr ⟨after, hui⟩)

/-- **Every request to disconnect is a Ctrl-Q.** -/
theorem exists_quit_of_sent {host user : Str} {cols rows : Nat} {history : History}
    (hr : Lts.run step (System.new host user cols rows history) l = some s) (hsent : .sent .disconnect ∈ l) :
    ∃ ev env, .handle ev env ∈ l ∧ ev.isQuit = true :=
  Lts.run_trace (Q := fun _ => True) (I := QuitHandled) (fun h _ hs => quitHandled_step h hs)
    (fun h => h.elim (fun hmem => nomatch hmem) fun ⟨_, hui⟩ => nomatch hui) (fun _ _ => trivial) hr (.inl hsent)

theorem requests_step (h : Requests l s) (hs : s.step a = some s') : Requests (l ++ [a]) s' := by
  cases stepped_of_step hs with
  | typed => exact h.of_silent rfl h.quit id
  | handled hui => exact h.of_silent rfl (fun _ he => h.quit _ he) id
  | @sends ev env term app history cmd after hui ht hh =>
    refine h.of_silent rfl (fun after' he => ?_) fun hfin => ?_
    · cases he
      exact (quit_of_disconnect hh).2
    · rw [hui] at hfin
      simp at hfin
  | @sent cmd after pipe hui hp =>
    -- before this send, no request to disconnect was sent
    have hno : .disconnect ∉ pushed (acts l) := fun hmem => by
      have := (h.last hmem).1
      rw [hui] at this
      simp at this
    have hpush : pushed (acts (l ++ [.sent cmd])) = pushed (acts l) ++ [cmd] := pushed_acts_concat _ _
    refine ⟨fun _ he => absurd he (not_sending_resume _ _ _), fun hmem => ?_⟩
    rw [hpush, List.mem_append, List.mem_singleton] at hmem
    obtain rfl := hmem.resolve_left hno
    obtain rfl := h.quit after hui
    exact ⟨.inl rfl, pushed (acts l), hpush, hno⟩
  | detached hui =>
    refine h.of_silent rfl (fun _ he => absurd he (not_sending_resume _ _ _)) fun hfin => ?_
    rw [hui] at hfin
    simp at hfin
  | receive hui => exact h.of_silent rfl (fun _ he => h.quit _ he) id
  | closed hui =>
    refine h.of_silent rfl (fun _ he => nomatch he) fun hfin => ?_
    rw [hui] at hfin
    simp at hfin
  | streamEnd hui => exact h.of_silent rfl (fun _ he => nomatch he) fun _ => .inl rfl
  | leave hui => exact h.of_silent rfl (fun _ he => nomatch he) fun _ => .inl rfl
  | finalize hui => exact h.of_silent rfl (fun _ he => nomatch he) fun _ => .inl rfl
  | drop hui => exact h.of_silent rfl (fun _ he => nomatch he) fun _ => .inr rfl
  | drv | arrive | hangup => exact h.of_silent rfl h.quit id

/-! ## Clean shutdown -/

/-- Every input accepted from the user was written, and the channel closed and the client disconnected. -/
def CleanQuit (l : List SysAct) : Prop := written (ios (acts l)) = bytesOf (pushed (acts l)) ∧
  (∃ r, .close r ∈ ios (acts l)) ∧ ∃ r, .disconnect r ∈ ios (acts l)

theorem run_requests {host user : Str} {cols rows : Nat} {history : History}
    (hr : Lts.run step (System.new host user cols rows history) l = some s) : Requests l s :=
  Lts.run_trace (Q := fun _ => True) (I := Requests) (fun h _ hs => requests_step h hs)
    ⟨fun _ h => (by cases h), fun h => (by simp [pushed, acts] at h)⟩ (fun _ _ => trivial) hr

/-- In a healthy run, the loop is left by a request to disconnect only. -/
theorem exit_disconnect {k₁ k₂ : List Act} {io : Io} {q q' : Pipe} (hh : ∀ a ∈ l, a.Healthy)
    (hl : acts l = k₁ ++ .drv io :: k₂) (hk₁ : Lts.run Pipe.step {} k₁ = some q) (hs : q.step (.drv io) = some q')
    (hexit : Exit io) : io = .recv (some .disconnect) ∧ q'.pc = .close := by
  have hmem : ∀ act ∈ k₁ ++ .drv io :: k₂, ∃ a ∈ l, a.act = some act ∧ a.Healthy := fun act hact => by
    obtain ⟨a, ha, hact⟩ := mem_of_mem_acts (hl ▸ hact)
    exact ⟨a, ha, hact, hh a ha⟩
  have hio : SysAct.Healthy (.drv io) := by
    obtain ⟨a, -, hact, ha⟩ := hmem (.drv io) (by simp)
    cases a <;> cases hact
    exact ha
  cases Pipe.leaves_of_exit hs hexit with
  | notConnected | notOpened | notWritten => cases hio
  | requested hin =>
    refine ⟨rfl, ?_⟩
    have hm := Pipe.moves_of_pipe hs
    generalize q.pc = pc at hm
    generalize q'.pc = pc' at hm
    cases hm
    rfl
  | peerClosed hrem =>
    have harr : .arrive .close ∈ k₁ := mem_arrived.1 (by simp [(Pipe.run_flow hk₁).remote, hrem])
    obtain ⟨a, -, ha, hhealthy⟩ := hmem _ (List.mem_append_left _ harr)
    cases a <;> cases ha
    cases hhealthy
  | ended hrem hend =>
    obtain ⟨a, -, ha, hhealthy⟩ := hmem .hangup (List.mem_append_left _ (Pipe.hangup_of_ended hk₁ hend))
    cases a <;> cases ha
    cases hhealthy

/-- **A shutdown is clean exactly when the driver has come past its last call.** -/
theorem cleanQuit_iff {host user : Str} {cols rows : Nat} {history : History}
    (hr : Lts.run step (System.new host user cols rows history) l = some s) (hh : ∀ a ∈ l, a.Healthy) :
    CleanQuit l ↔ disconnects s.pipe.pc = false := by
  have hp := run_pipe hr
  have hacc := Pipe.run_account hp
  constructor
  · rintro ⟨-, -, r, hr⟩
    exact hacc.disconnected (List.any_eq_true.2 ⟨_, hr, rfl⟩)
  · intro hpc
    obtain ⟨hout, hwriting⟩ := loops_of_disconnects hpc
    obtain ⟨k₁, io, k₂, q, q', hl, hk₁, hq, hs, hq', hk₂⟩ := Pipe.run_exit hp hout
    obtain ⟨rfl, hclose⟩ := exit_disconnect hh hl hk₁ hs ((Pipe.moves_of_pipe hs).exit hq hq')
    have hios : ios (acts l) = ios k₁ ++ .recv (some .disconnect) :: ios k₂ := by rw [hl, ios_append]; rfl
    have hcalls := Driver.run_close (hclose ▸ Pipe.run_driver hk₂) hpc
    refine ⟨?_, hcalls.1.imp fun r hr => by simp [hios, hr], hcalls.2.imp fun r hr => by simp [hios, hr]⟩
    -- the request was the last input, and it was taken
    have hflow := (Pipe.run_flow hp).input
    have htaken : SessionInput.disconnect ∈ taken (ios (acts l)) :=
      List.mem_filterMap.2 ⟨.recv (some .disconnect), by rw [hios]; simp, rfl⟩
    obtain ⟨-, cmds, hcmds, hno⟩ := (run_requests hr).last (by rw [hflow]; exact List.mem_append_left _ htaken)
    have hinput : s.pipe.input = [] := by
      rcases List.eq_nil_or_concat' s.pipe.input with hnil | ⟨rest, cmd, hcat⟩
      · exact hnil
      · rw [hcmds, hcat, ← List.append_assoc] at hflow
        have := List.append_inj_left' hflow rfl
        exact absurd (this ▸ List.mem_append_left _ htaken) hno
    rw [hinput, List.append_nil] at hflow
    rw [hflow, ← hacc.input, hwriting, List.append_nil]

/-! ## Runs with a quit -/

/-- **Wherever the handle is dropped after a request to disconnect, the shutdown was clean.** The request is that of a
Ctrl-Q. -/
def QuitsCleanly (l : List SysAct) : Prop := ∀ l₁ l₂, l = l₁ ++ .drop :: l₂ → .sent .disconnect ∈ l₁ → CleanQuit l₁

/-- Wherever the handle is dropped after a request to disconnect, the driver has at most its last events to send. -/
def DropsLate (s : System V) (l : List SysAct) : Prop := ∀ l₁ l₂ s', l = l₁ ++ .drop :: l₂ → .sent .disconnect ∈ l₁ →
  Lts.run step s l₁ = some s' → disconnects s'.pipe.pc = false

/-- **While nothing fails and the remote keeps the channel open, a run quits cleanly exactly when the handle is dropped
late.** -/
theorem quitsCleanly_iff {host user : Str} {cols rows : Nat} {history : History}
    (hr : Lts.run step (System.new host user cols rows history) l = some s) (hh : ∀ a ∈ l, a.Healthy) :
    QuitsCleanly l ↔ DropsLate (System.new host user cols rows history : System V) l := by
  have hpart : ∀ {l₁ l₂ : List SysAct} {a : SysAct} {s' : System V}, l = l₁ ++ a :: l₂ →
      Lts.run step (System.new host user cols rows history) l₁ = some s' →
      (CleanQuit l₁ ↔ disconnects s'.pipe.pc = false) := fun hl hs' =>
    cleanQuit_iff hs' fun b hb => hh b (hl ▸ List.mem_append_left _ hb)
  constructor
  · intro h l₁ l₂ s' hl hquit hs'
    exact (hpart hl hs').1 (h l₁ l₂ hl hquit)
  · intro h l₁ l₂ hl hquit
    obtain ⟨s', hs', -⟩ := Lts.run_append_some (hl ▸ hr)
    exact (hpart hl hs').2 (h l₁ l₂ s' hl hquit hs')

/-- A press of the letter `a`, sent to the driver. -/
def letterTyped : List SysAct :=
  [.typed (.key { code := .char 'a' }), .handle (.key { code := .char 'a' }) (.stable 0), .sent (.bytes [0x61])]

def ctrlQ : TermEvent := .key { code := .char 'q', modifiers := { control := true } }

/-- A press of Ctrl-Q, with the request queued. -/
def quitTyped : List SysAct := [.typed ctrlQ, .handle ctrlQ (.stable 0), .sent .disconnect]

/-- The driver works through its queue. -/
def drained : List SysAct :=
  [.drv (.recv (some (.bytes [0x61]))), .drv (.write [0x61] (.ok ())), .drv (.recv (some .disconnect)),
   .drv (.close (.ok ())), .drv (.disconnect (.ok ()))]

theorem quitsCleanly_drained : QuitsCleanly (opening ++ letterTyped ++ quitTyped ++ drained ++ [.drop]) ∧
    CleanQuit (opening ++ letterTyped ++ quitTyped ++ drained) := by
  set k := opening ++ letterTyped ++ quitTyped ++ drained with hk
  have hrun : (Lts.run step (System.new ['h'] ['u'] 80 24 {} : System MiniVt) (k ++ [.drop])).isSome := by
    decide +kernel
  have hhealthy : ∀ a ∈ k ++ [.drop], a.Healthy := by
    simp [hk, opening, letterTyped, quitTyped, drained, SysAct.Healthy]
  obtain ⟨s, hs⟩ := Option.isSome_iff_exists.1 hrun
  have hclean : QuitsCleanly (k ++ [.drop]) := by
    refine (quitsCleanly_iff hs hhealthy).2 fun l₁ l₂ s' hl _ hs' => ?_
    -- the handle is dropped once
    have hnot : .drop ∉ k := by simp [hk, opening, letterTyped, quitTyped, drained]
    have hl₁ : l₁ = k := by
      rcases List.append_eq_append_iff.1 hl with ⟨m, hl₁, hm⟩ | ⟨m, hk₁, hm⟩
      · cases m with
        | nil => rw [hl₁, List.append_nil]
        | cons b m => simp at hm
      · cases m with
        | nil => rw [hk₁, List.append_nil]
        | cons b m =>
          cases hm
          simp [hk₁] at hnot
    have hpc : (Lts.run step (System.new ['h'] ['u'] 80 24 {} : System MiniVt) k).map
        (fun s => disconnects s.pipe.pc) = some false := by decide +kernel
    rw [← hl₁, hs'] at hpc
    exact Option.some.inj hpc
  exact ⟨hclean, hclean k [] rfl (by simp [hk, quitTyped])⟩

/-- The handle is dropped as soon as the request is queued: the last letter is lost, and nothing is shut down. -/
theorem quit_aborts : ¬ ∀ (l : List SysAct) (s : System MiniVt),
    Lts.run step (System.new ['h'] ['u'] 80 24 {}) l = some s → (∀ a ∈ l, a.Healthy) →
    .drv (.send (.stateChanged .shellOpen) true) ∈ l → QuitsCleanly l := by
  intro h
  have hrun : (Lts.run step (System.new ['h'] ['u'] 80 24 {} : System MiniVt)
      (opening ++ letterTyped ++ quitTyped ++ [.drop])).isSome := by decide +kernel
  obtain ⟨s, hs⟩ := Option.isSome_iff_exists.1 hrun
  have hclean := h _ s hs (by simp [opening, letterTyped, quitTyped, SysAct.Healthy]) (by simp [opening])
    (opening ++ letterTyped ++ quitTyped) [] rfl (by simp [quitTyped])
  exact absurd hclean.1 (by decide)

end System

end TinySsh
