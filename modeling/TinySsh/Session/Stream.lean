import TinySsh.App.Events

/-!
# The event stream of a session

While its receiver is alive, the driver task that runs to its end sends one of three kinds of streams (`WellFormed`,
`stream_wellFormed`): whatever the calls return, whichever inputs and messages come in whatever order. A task under way
can still come to its end (`exists_completion`), so what it has sent is an initial part of such a stream. The
application that reads it is closed only in a terminal state (`session_stream`).
-/

namespace TinySsh.Driver

open Text

variable {l : List Io} {pc : Pc} {evs : List SessionEvent}

/-! ## Streams -/

/-- An event of the shell phase. -/
inductive Mid : SessionEvent → Prop
  | output (bytes : List UInt8) : Mid (.output bytes)
  | stderr (bytes : List UInt8) : Mid (.stderr bytes)
  | exitStatus (status : Nat) : Mid (.exitStatus status)
  | error (msg : String) : Mid (.error msg)

/-- The streams of complete sessions. -/
inductive WellFormed : List SessionEvent → Prop
  | connectFailed (msg : String) :
      WellFormed [.stateChanged .connecting, .error msg, .stateChanged (.failed msg), .closed]
  | openFailed (msg : String) : WellFormed
      [.stateChanged .connecting, .stateChanged .authenticated, .error msg, .stateChanged (.failed msg), .closed]
  | shell {mid : List SessionEvent} (hmid : ∀ ev ∈ mid, Mid ev) : WellFormed
      ([.stateChanged .connecting, .stateChanged .authenticated, .stateChanged .shellOpen] ++ mid ++
        [.stateChanged .closed, .closed])

/-- The announcements of an end of the session. -/
def terminal : SessionEvent → Bool
  | .stateChanged .closed | .stateChanged (.failed _) => true
  | _ => false

/-! ## The driver's stream -/

/-- The control points from the opening of the shell on. -/
inductive Loop : Pc → Prop
  | select : Loop .select
  | write (data : List UInt8) : Loop (.write data)
  | resize (cols rows : Nat) : Loop (.resize cols rows)
  | close : Loop .close
  | send {ev : SessionEvent} {ok err : Pc} (hev : Mid ev) (hok : Loop ok) : Loop (.send ev ok err)
  | finish : Loop finish

theorem loop_onInput (cmd : Option SessionInput) : Loop (onInput cmd) := by
  rcases cmd with _ | _ | _ | _
  · exact .finish
  · exact .write _
  · exact .resize _ _
  · exact .close

theorem loop_onMsg (msg : Option ChannelMsg) : Loop (onMsg msg) := by
  rcases msg with _ | m
  · exact .finish
  unfold onMsg
  dsimp only
  split
  · rename_i ev _
    cases ev with
    | data d => exact .send (.output d) .select
    | stderr d => exact .send (.stderr d) .select
    | eof => exact .select
    | exitStatus s => exact .send (.exitStatus s) .select
    | closed => exact .finish
  · exact .select

/-- A step of the loop stays in it or sends one of its events. -/
theorem loop_step {a : Io} {pc' : Pc} (h : Loop pc) (hne : pc ≠ finish) (hs : step pc a = some pc') (hd : Delivered a) :
    Loop pc' ∧ ∀ ev, sentEvent a = some ev → Mid ev := by
  cases moves_of_step hs hd with
  | input cmd => exact ⟨loop_onInput cmd, fun _ h => nomatch h⟩
  | message msg => exact ⟨loop_onMsg msg, fun _ h => nomatch h⟩
  | written => exact ⟨.select, fun _ h => nomatch h⟩
  | notWritten data e => exact ⟨.send (.error _) .finish, fun _ h => nomatch h⟩
  | resized => exact ⟨.select, fun _ h => nomatch h⟩
  | notResized cols rows e => exact ⟨.send (.error _) .select, fun _ h => nomatch h⟩
  | closed => exact ⟨.finish, fun _ h => nomatch h⟩
  | send =>
    cases h with
    | send hev hok => exact ⟨hok, fun _ h => by cases h; exact hev⟩
  | disconnected => cases h; exact absurd rfl hne
  | _ => cases h

/-- The end of the task announces that the session is closed. -/
theorem run_finish (h : Lts.run step finish l = some .done) (hd : ∀ a ∈ l, Delivered a) :
    sent l = [.stateChanged .closed, .closed] := by
  obtain ⟨l₁, hs₁, h₁, hd₁⟩ := run_disconnect h hd
  obtain ⟨l₂, hs₂, h₂, hd₂⟩ := run_send h₁ hd₁
  obtain ⟨l₃, hs₃, h₃, -⟩ := run_send h₂ hd₂
  rw [hs₁, hs₂, hs₃, run_done h₃, sent_nil]

/-- **From the opening of the shell on, the stream is any events of the shell and then the end.** -/
theorem run_loop (hpc : Loop pc) (h : Lts.run step pc l = some .done) (hd : ∀ a ∈ l, Delivered a) :
    ∃ mid, sent l = mid ++ [.stateChanged .closed, .closed] ∧ ∀ ev ∈ mid, Mid ev := by
  induction l generalizing pc with
  | nil => cases h; cases hpc
  | cons a l ih =>
    by_cases hfin : pc = finish
    · subst hfin
      exact ⟨[], run_finish h hd, by simp⟩
    · obtain ⟨pc', hs, hl⟩ := Lts.run_cons_some h
      obtain ⟨hpc', hev⟩ := loop_step hpc hfin hs (hd a List.mem_cons_self)
      obtain ⟨mid, hsent, hmid⟩ := ih hpc' hl fun b hb => hd b (List.mem_cons_of_mem _ hb)
      refine ⟨(sentEvent a).toList ++ mid, ?_, ?_⟩
      · rw [sent, List.filterMap_cons]
        cases hsa : sentEvent a <;> simp [← hsent, sent]
      · intro ev hm
        rcases List.mem_append.1 hm with hm | hm
        · exact hev ev (by simpa using hm)
        · exact hmid ev hm

theorem run_connectFailed {msg : String} (h : Lts.run step (connectFailed msg) l = some .done)
    (hd : ∀ a ∈ l, Delivered a) : sent l = [.error msg, .stateChanged (.failed msg), .closed] := by
  obtain ⟨l₁, hs₁, h₁, hd₁⟩ := run_send h hd
  obtain ⟨l₂, hs₂, h₂, hd₂⟩ := run_send h₁ hd₁
  obtain ⟨l₃, hs₃, h₃, -⟩ := run_send h₂ hd₂
  rw [hs₁, hs₂, hs₃, run_done h₃, sent_nil]

theorem run_openFailed {msg : String} (h : Lts.run step (openFailed msg) l = some .done)
    (hd : ∀ a ∈ l, Delivered a) : sent l = [.error msg, .stateChanged (.failed msg), .closed] := by
  obtain ⟨l₁, hs₁, h₁, hd₁⟩ := run_send h hd
  obtain ⟨l₂, hs₂, h₂, hd₂⟩ := run_send h₁ hd₁
  obtain ⟨l₃, hs₃, h₃, hd₃⟩ := run_disconnect h₂ hd₂
  obtain ⟨l₄, hs₄, h₄, -⟩ := run_send h₃ hd₃
  rw [hs₁, hs₂, hs₃, hs₄, run_done h₄, sent_nil]

/-- **The driver task sends a well-formed stream.** -/
theorem stream_wellFormed (h : Lts.run step driverTask l = some .done) (hd : ∀ a ∈ l, Delivered a) :
    WellFormed (sent l) := by
  obtain ⟨l₁, hs₁, h₁, hd₁⟩ := run_send h hd
  -- the results of `SshClient::connect` and `open_shell` decide where the task goes
  obtain ⟨_, _, l₂, hconnect, hs₂, h₂, hd₂⟩ := run_await h₁ (fun h => nomatch h) hd₁
  cases hconnect with
  | notConnected e =>
    rw [hs₁, hs₂, run_connectFailed h₂ hd₂]
    exact .connectFailed _
  | connected =>
    obtain ⟨l₃, hs₃, h₃, hd₃⟩ := run_send h₂ hd₂
    obtain ⟨_, _, l₄, hopen, hs₄, h₄, hd₄⟩ := run_await h₃ (fun h => nomatch h) hd₃
    cases hopen with
    | notOpened e =>
      rw [hs₁, hs₂, hs₃, hs₄, run_openFailed h₄ hd₄]
      exact .openFailed _
    | opened =>
      obtain ⟨l₅, hs₅, h₅, hd₅⟩ := run_send h₄ hd₄
      obtain ⟨mid, hmid, hall⟩ := run_loop .select h₅ hd₅
      rw [hs₁, hs₂, hs₃, hs₄, hs₅, hmid]
      exact .shell hall

/-! ## Sessions under way -/

/-- The task can come to its end. -/
def Completes (pc : Pc) : Prop := ∃ l, Lts.run step pc l = some .done ∧ ∀ a ∈ l, Delivered a

theorem Completes.of_step {a : Io} {pc' : Pc} (h : Completes pc') (hs : step pc a = some pc') (hd : Delivered a) :
    Completes pc := by
  obtain ⟨l, hl, hall⟩ := h
  exact ⟨a :: l, by rw [Lts.run_cons, hs]; exact hl, List.forall_mem_cons.2 ⟨hd, hall⟩⟩

theorem Completes.send {ev : SessionEvent} {ok err : Pc} (h : Completes ok) : Completes (.send ev ok err) :=
  h.of_step (a := .send ev true) (if_pos rfl) rfl

theorem Completes.disconnect {next : Pc} (h : Completes next) : Completes (.disconnect next) :=
  h.of_step (a := .disconnect (.ok ())) rfl trivial

theorem completes_finish : Completes finish :=
  have hdone : Completes .done := ⟨[], rfl, fun _ h => nomatch h⟩
  hdone.send.send.disconnect

/-- Without a handle, the loop ends. -/
theorem completes_select : Completes .select := completes_finish.of_step (a := .recv none) rfl trivial

/-- **Wherever the task is, it can come to its end.** -/
theorem exists_completion (pc : Pc) : Completes pc := by
  have hopen : Completes .openShell := completes_select.send.of_step (a := .openShell (.ok ())) rfl trivial
  induction pc with
  | send ev ok err ihok _ => exact ihok.send
  | connect => exact hopen.send.of_step (a := .connect (.ok ())) rfl trivial
  | openShell => exact hopen
  | select => exact completes_select
  | write data => exact completes_select.of_step (a := .write data (.ok ())) (if_pos rfl) trivial
  | resize cols rows => exact completes_select.of_step (a := .resize cols rows (.ok ())) (if_pos ⟨rfl, rfl⟩) trivial
  | close => exact completes_finish.of_step (a := .close (.ok ())) rfl trivial
  | disconnect next ih => exact ih.disconnect
  | done => exact ⟨[], rfl, fun _ h => nomatch h⟩

/-- **What a task under way has sent is an initial part of a well-formed stream.** -/
theorem stream_initial (h : Lts.run step driverTask l = some pc) (hd : ∀ a ∈ l, Delivered a) :
    ∃ evs, WellFormed evs ∧ sent l <+: evs := by
  obtain ⟨k, hk, hdk⟩ := exists_completion pc
  have hall : ∀ a ∈ l ++ k, Delivered a := fun a ha => (List.mem_append.1 ha).elim (hd a) (hdk a)
  exact ⟨sent (l ++ k), stream_wellFormed (Lts.run_trans h hk) hall, by simp⟩

/-! ## What well-formed streams are like -/

/-- `Closed` is the last event and comes once. -/
theorem WellFormed.split_closed (h : WellFormed evs) : ∃ init, evs = init ++ [.closed] ∧ .closed ∉ init := by
  cases h with
  | connectFailed msg => exact ⟨[_, _, _], rfl, by simp⟩
  | openFailed msg => exact ⟨[_, _, _, _], rfl, by simp⟩
  | @shell mid hmid =>
    refine ⟨[.stateChanged .connecting, .stateChanged .authenticated, .stateChanged .shellOpen] ++ mid ++
      [.stateChanged .closed], by simp, ?_⟩
    have : SessionEvent.closed ∉ mid := fun hm => nomatch hmid _ hm
    simpa using this

/-- A session whose shell opened announces no failure. -/
theorem WellFormed.no_failed (h : WellFormed evs) (hopen : .stateChanged .shellOpen ∈ evs) (msg : String) :
    .stateChanged (.failed msg) ∉ evs := by
  cases h with
  | connectFailed m => simp at hopen
  | openFailed m => simp at hopen
  | @shell mid hmid =>
    have : SessionEvent.stateChanged (.failed msg) ∉ mid := fun hm => nomatch hmid _ hm
    simpa using this

/-- One end of the session is announced. -/
theorem WellFormed.terminal_once (h : WellFormed evs) : evs.countP terminal = 1 := by
  cases h with
  | connectFailed msg => rfl
  | openFailed msg => rfl
  | @shell mid hmid =>
    have : mid.countP terminal = 0 := List.countP_eq_zero.2 fun ev hm => by cases hmid ev hm <;> simp [terminal]
    simp only [List.countP_append, this]
    rfl

/-! ## The application that reads the stream -/

/-- The state after the announcements of a stream. -/
def stateAfter (s : SessionState) : List SessionEvent → SessionState
  | [] => s
  | .stateChanged s :: evs => stateAfter s evs
  | _ :: evs => stateAfter s evs

theorem stateAfter_append (s : SessionState) (a b : List SessionEvent) :
    stateAfter s (a ++ b) = stateAfter (stateAfter s a) b := by
  induction a generalizing s with
  | nil => rfl
  | cons ev a ih => cases ev <;> exact ih _

theorem stateAfter_mid {mid : List SessionEvent} (s : SessionState) (h : ∀ ev ∈ mid, Mid ev) :
    stateAfter s mid = s := by
  induction mid with
  | nil => rfl
  | cons ev mid ih =>
    have hmid := ih fun e he => h e (List.mem_cons_of_mem _ he)
    cases h ev List.mem_cons_self <;> exact hmid

/-- A complete stream ends in a terminal state. -/
theorem WellFormed.stateAfter (h : WellFormed evs) :
    stateAfter .connecting evs = .closed ∨ ∃ msg, stateAfter .connecting evs = .failed msg := by
  cases h with
  | connectFailed msg => exact .inr ⟨msg, rfl⟩
  | openFailed msg => exact .inr ⟨msg, rfl⟩
  | shell hmid =>
    left
    rw [stateAfter_append, stateAfter_append, stateAfter_mid _ hmid]
    rfl

/-- The events that the application reads along a run. -/
def readEvents (l : List App.Input) : List SessionEvent := l.filterMap fun
  | .event ev => some ev
  | .key _ _ => none

section App

variable {V : Type} [Vt V]

/-- The session state and the closed flag are those of the events read. -/
def Reads (evs : List SessionEvent) (app : App V) : Prop :=
  app.state = Driver.stateAfter .connecting evs ∧ (app.closed = true ↔ .closed ∈ evs)

theorem Reads.onKey {app : App V} {key : KeyEvent} {history : History} {env : Env} {r : App V × History × Action}
    (h : Reads evs app) (hr : App.KeyStep app key history env r) : Reads evs r.1 := by
  cases hr with
  | captured => exact h
  | accepted => exact h
  | silent => exact h
  | sent =>
    unfold App.shadowStep
    cases App.keyCached key <;> exact h

theorem Reads.onSessionEvent {app : App V} (h : Reads evs app) (ev : SessionEvent) :
    Reads (evs ++ [ev]) (app.onSessionEvent ev) := by
  obtain ⟨hstate, hclosed⟩ := h
  unfold Reads
  rw [stateAfter_append, ← hstate]
  cases ev with
  | stateChanged s => exact ⟨rfl, by simpa [App.onSessionEvent] using hclosed⟩
  | output bytes | stderr bytes =>
    simp only [App.onSessionEvent, App.onOutput_eq]
    exact ⟨rfl, by simpa using hclosed⟩
  | exitStatus status => exact ⟨rfl, by simpa [App.onSessionEvent] using hclosed⟩
  | error msg => exact ⟨rfl, by simpa [App.onSessionEvent] using hclosed⟩
  | closed => exact ⟨rfl, by simp [App.onSessionEvent]⟩

/-- Keys change neither; events change both as the stream says. -/
theorem run_reads {host user : Str} {cols rows : Nat} {history₀ history : History} {app : App V}
    {l : List App.Input} (hr : App.runNew host user cols rows history₀ l = some (app, history)) :
    Reads (readEvents l) app := by
  have hI := Lts.run_trace (Q := fun _ => True) (I := fun l (s : App V × History) => s.1.Ok ∧ Reads (readEvents l) s.1)
    (fun {l s i s'} hI _ hs => ?_) ⟨App.ok_new host user cols rows, rfl, by simp [readEvents, App.new]⟩
    (fun _ _ => trivial) hr
  · exact hI.2
  · obtain ⟨hok, hreads⟩ := hI
    refine ⟨hok.step hs, ?_⟩
    cases i with
    | key key env =>
      obtain ⟨r, hr, rfl⟩ := Option.map_eq_some_iff.1 hs
      simpa [readEvents] using hreads.onKey (App.keyStep_of_onKey hok.wf hr)
    | event ev =>
      cases hs
      simpa [readEvents] using hreads.onSessionEvent ev

omit [Vt V] in
/-- An application that reads an initial part of a well-formed stream is closed only in a terminal state. -/
theorem Reads.state_of_closed {evs₀ : List SessionEvent} {app : App V} (h : Reads evs app) (hpre : evs <+: evs₀)
    (hwf : WellFormed evs₀) (hclosed : app.closed = true) : app.state = .closed ∨ ∃ msg, app.state = .failed msg := by
  obtain ⟨init, rfl, hnot⟩ := hwf.split_closed
  -- the closing event is the last one, so all of the stream was read
  obtain rfl : evs = init ++ [.closed] := by
    rcases List.prefix_concat_iff.1 hpre with hpre | hpre
    · exact hpre
    · exact absurd (hpre.subset (h.2.1 hclosed)) hnot
  rw [h.1]
  exact hwf.stateAfter

/-- **Every session emits a well-formed stream**: an initial part of one as long as it is under way, a complete one when
it has come to its end. An application that reads an initial part of it is closed only in a terminal state. -/
theorem session_stream {l : List Io} {pc : Pc} (h : Lts.run step driverTask l = some pc) (hd : ∀ a ∈ l, Delivered a) :
    (∃ evs, WellFormed evs ∧ sent l <+: evs) ∧
    (pc = .done → WellFormed (sent l) ∧ (sent l).count .closed = 1 ∧ (sent l).getLast? = some .closed ∧
      (.stateChanged .shellOpen ∈ sent l → ∀ msg, .stateChanged (.failed msg) ∉ sent l) ∧
      (sent l).countP terminal = 1) ∧
    ∀ (host user : Str) (cols rows : Nat) (history₀ history : History) (app : App V) (inputs : List App.Input),
      App.runNew host user cols rows history₀ inputs = some (app, history) → readEvents inputs <+: sent l →
      app.closed = true → app.state = .closed ∨ ∃ msg, app.state = .failed msg := by
  obtain ⟨evs, hevs, hpre⟩ := stream_initial h hd
  refine ⟨⟨evs, hevs, hpre⟩, ?_, ?_⟩
  · rintro rfl
    have hwf := stream_wellFormed h hd
    obtain ⟨init, hinit, hnot⟩ := hwf.split_closed
    refine ⟨hwf, ?_, ?_, hwf.no_failed, hwf.terminal_once⟩
    · rw [hinit, List.count_append, List.count_eq_zero.2 hnot]
      rfl
    · rw [hinit, List.getLast?_concat]
  · intro host user cols rows history₀ history app inputs hr hread hclosed
    exact (run_reads hr).state_of_closed (hread.trans hpre) hevs hclosed

/-- A session in which the shell prints a line and exits. -/
def echoRun : List Io :=
  [.send (.stateChanged .connecting) true, .connect (.ok ()), .send (.stateChanged .authenticated) true,
   .openShell (.ok ()), .send (.stateChanged .shellOpen) true, .wait (some (.data [0x68, 0x69, 0x0a])),
   .send (.output [0x68, 0x69, 0x0a]) true, .wait (some (.exitStatus 0)), .send (.exitStatus 0) true, .wait none,
   .disconnect (.ok ()), .send (.stateChanged .closed) true, .send .closed true]

theorem session_stream_echo : Lts.run step driverTask echoRun = some .done ∧ WellFormed (sent echoRun) ∧
    (sent echoRun).getLast? = some .closed ∧ (∀ msg, .stateChanged (.failed msg) ∉ sent echoRun) ∧
    ∃ (app : App MiniVt) (history : History),
      App.runNew ['h'] ['u'] 80 24 {} ((sent echoRun).map .event) = some (app, history) ∧ app.closed = true ∧
      (app.state = .closed ∨ ∃ msg, app.state = .failed msg) := by
  have hrun : Lts.run step driverTask echoRun = some .done := by decide
  obtain ⟨-, hend, happ⟩ := session_stream (V := MiniVt) hrun (by simp [echoRun, Delivered])
  obtain ⟨hwf, -, hlast, hfail, -⟩ := hend rfl
  obtain ⟨⟨app, history⟩, hr⟩ := Option.isSome_iff_exists.1 (App.run_isSome (V := MiniVt)
    (l := (sent echoRun).map .event) (s := (App.new ['h'] ['u'] 80 24, {})) (App.ok_new _ _ _ _))
  have hread : readEvents ((sent echoRun).map .event) = sent echoRun := by decide
  have hclosed : app.closed = true := (run_reads hr).2.2 (by rw [hread]; decide)
  exact ⟨hrun, hwf, hlast, hfail (by decide), app, history, hr, hclosed,
    happ _ _ _ _ _ _ app _ hr (hread ▸ List.prefix_rfl) hclosed⟩

end App

end TinySsh.Driver
