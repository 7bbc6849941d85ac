import TinySsh.Client
import TinySsh.Session.Stream
import TinySsh.Session.Relay

/-!
# What a session announces

In any interleaving of sessions, each of them is a run of the driver (`Log.driver`), so that its event stream is the
driver's; and its calls into the library come in one order (`Progress`). Hence the states that a session announces are
true (`announces_truly`): `Authenticated` means that the server accepted the configured credential, `ShellOpen` that it
was then asked for a terminal of the configured size and for a shell, `Failed` tells the error of the one call that
failed.
-/

namespace TinySsh

open Text

variable {File Key Secret : Type}

/-! ## Logs -/

/-- The calls of a session along a run. -/
def callsOf (id : Nat) (l : List (SessionsAct Key Secret)) : List (LibraryCall Key Secret) := l.filterMap fun
  | .call id' c => if id' = id then some c else none
  | _ => none

/-- The awaits of the driver that the calls complete. -/
def labels (cs : List (LibraryCall Key Secret)) : List Io := cs.filterMap LibraryCall.label

def LibraryCall.isLibrary : LibraryCall Key Secret → Bool
  | .io _ => false
  | _ => true

/-- The calls into the library. -/
def libraryCalls (cs : List (LibraryCall Key Secret)) : List (LibraryCall Key Secret) := cs.filter LibraryCall.isLibrary

theorem callsOf_concat (id : Nat) (l : List (SessionsAct Key Secret)) (a : SessionsAct Key Secret) :
    callsOf id (l ++ [a]) = callsOf id l ++ callsOf id [a] := List.filterMap_append

theorem callsOf_call (id : Nat) (c : LibraryCall Key Secret) : callsOf id [.call id c] = [c] := by simp [callsOf]

theorem callsOf_other {id : Nat} {a : SessionsAct Key Secret} (ha : ∀ c, a ≠ .call id c) : callsOf id [a] = [] := by
  cases a with
  | call id' c =>
    have hid : id' ≠ id := fun heq => ha c (heq ▸ rfl)
    simp [callsOf, hid]
  | _ => rfl

theorem labels_concat (cs : List (LibraryCall Key Secret)) (c : LibraryCall Key Secret) :
    labels (cs ++ [c]) = labels cs ++ c.label.toList := filterMap_concat _ _ _

theorem libraryCalls_concat (cs : List (LibraryCall Key Secret)) (c : LibraryCall Key Secret) :
    libraryCalls (cs ++ [c]) = libraryCalls cs ++ if c.isLibrary then [c] else [] := by
  rw [libraryCalls, List.filter_append]
  cases h : c.isLibrary <;> simp [libraryCalls, h]

/-! ## The order of the calls -/

/-- The calls up to an accepted connection. -/
def dialled (key : Key) : List (LibraryCall Key Secret) := [.checkServerKey key, .connect (.ok ())]

/-- The credential of the configuration, and the call that loads it. -/
inductive Presents (config : SshConfig) : Credential Secret → List (LibraryCall Key Secret) → Prop
  | password {pw : Str} (h : config.auth = .password pw) : Presents config (.password config.user pw) []
  | publicKey {path : Str} {passphrase : Option Str} (secret : Secret) (h : config.auth = .publicKey path passphrase) :
      Presents config (.publicKey config.user secret) [.loadSecretKey path passphrase (.ok secret)]

/-- The calls of `open_shell` before a stage. -/
inductive Opens (pty : PtyConfig) : List (LibraryCall Key Secret) → Stage Secret → Prop
  | channelOpen : Opens pty [] .channelOpen
  | requestPty : Opens pty [.channelOpenSession (.ok ())] .requestPty
  | requestShell :
      Opens pty [.channelOpenSession (.ok ()), .requestPty pty.term pty.cols pty.rows (.ok ())] .requestShell
  | shell : Opens pty [.channelOpenSession (.ok ()), .requestPty pty.term pty.cols pty.rows (.ok ()),
      .requestShell (.ok ())] .shell

/-- **The calls of a session before a stage**, with the key that the server presented and the verdict on it. -/
inductive Progress (config : SshConfig) (pty : PtyConfig) :
    Option (Key × Except RusshError Bool) → List (LibraryCall Key Secret) → Stage Secret → Prop
  | idle : Progress config pty none [] .connect
  | asked (key : Key) (verdict : Except RusshError Bool) :
      Progress config pty (some (key, verdict)) [.checkServerKey key] .connect
  | loading (key : Key) {path : Str} {passphrase : Option Str} (h : config.auth = .publicKey path passphrase) :
      Progress config pty (some (key, .ok true)) (dialled key) .loadKey
  | presenting (key : Key) {cred : Credential Secret} {load : List (LibraryCall Key Secret)}
      (hp : Presents config cred load) :
      Progress config pty (some (key, .ok true)) (dialled key ++ load) (.authenticate cred)
  | opening (key : Key) {cred : Credential Secret} {load rest : List (LibraryCall Key Secret)} {stage : Stage Secret}
      (hp : Presents config cred load) (ho : Opens pty rest stage) : Progress config pty (some (key, .ok true))
        (dialled key ++ load ++ .authenticate cred (.ok true) :: rest) stage
  | failed {asked : Option (Key × Except RusshError Bool)} {cs : List (LibraryCall Key Secret)} {stage : Stage Secret}
      {c : LibraryCall Key Secret} {e : SshError} (h : Progress config pty asked cs stage)
      (hst : ∀ e, stage ≠ .failed e)
      (hshell : stage ≠ .shell) (hc : c.failure = some e) : Progress config pty asked (cs ++ [c]) (.failed e)

section Progress

variable {config : SshConfig} {pty : PtyConfig} {asked : Option (Key × Except RusshError Bool)}
  {cs : List (LibraryCall Key Secret)} {stage : Stage Secret} {cred : Credential Secret}
  {load : List (LibraryCall Key Secret)}

/-- Loading a credential does not fail. -/
theorem Presents.failure (h : Presents config cred load) {c : LibraryCall Key Secret} (hc : c ∈ load) :
    c.failure = none := by
  cases h with
  | password => cases hc
  | publicKey => rw [List.mem_singleton.1 hc]; rfl

theorem Opens.failure (h : Opens pty cs stage) {c : LibraryCall Key Secret} (hc : c ∈ cs) : c.failure = none := by
  cases h <;> simp only [List.mem_cons, List.not_mem_nil, or_false] at hc
  · rw [hc]; rfl
  · rcases hc with rfl | rfl <;> rfl
  · rcases hc with rfl | rfl | rfl <;> rfl

theorem Opens.not_failed (h : Opens pty cs stage) (e : SshError) : stage ≠ .failed e := by
  cases h <;> exact fun h => nomatch h

theorem dialled_failure {key : Key} {c : LibraryCall Key Secret} (hc : c ∈ dialled key) : c.failure = none := by
  simp only [dialled, List.mem_cons, List.not_mem_nil, or_false] at hc
  rcases hc with rfl | rfl <;> rfl

/-- Before a failure, no call fails. -/
theorem Progress.failure (h : Progress config pty asked cs stage) (hst : ∀ e, stage ≠ .failed e)
    {c : LibraryCall Key Secret}
    (hc : c ∈ cs) : c.failure = none := by
  cases h with
  | idle => cases hc
  | asked key verdict => rw [List.mem_singleton.1 hc]; rfl
  | loading => exact dialled_failure hc
  | presenting key hp =>
    rcases List.mem_append.1 hc with hc | hc
    · exact dialled_failure hc
    · exact hp.failure hc
  | opening key hp ho =>
    rcases List.mem_append.1 hc with hc | hc
    · rcases List.mem_append.1 hc with hc | hc
      · exact dialled_failure hc
      · exact hp.failure hc
    · rcases List.mem_cons.1 hc with rfl | hc
      · rfl
      · exact ho.failure hc
  | failed => exact absurd rfl (hst _)

end Progress

/-! ## One call -/

/-- The calls of a session so far. -/
structure Session.Log (cs : List (LibraryCall Key Secret)) (sess : Session Key Secret) : Prop where
  driver : Lts.run Driver.step Driver.driverTask (labels cs) = some sess.pc
  delivered : ∀ io ∈ labels cs, Driver.Delivered io
  progress : Progress sess.config sess.pty sess.asked (libraryCalls cs) sess.stage
  /-- What `connect` and `open_shell` return is up to the calls. -/
  io : ∀ io, .io io ∈ cs → (∀ r, io ≠ .connect r) ∧ ∀ r, io ≠ .openShell r

namespace Session

variable {lib : RusshKeys File Key} {home : Str} {disk disk' : Disk File} {sess sess' : Session Key Secret}
  {c : LibraryCall Key Secret} {cs : List (LibraryCall Key Secret)}

theorem Log.new (config : SshConfig) (pty : PtyConfig) :
    Log [] ({ config, pty } : Session Key Secret) := ⟨rfl, by simp [labels], .idle, by simp⟩

/-- A call that a stage makes is one into the library. -/
theorem Makes.isLibrary (h : sess.Makes c) : c.isLibrary = true := by cases h <;> rfl

/-- No call is made after a failure, or once the shell is open. -/
theorem Makes.stage (h : sess.Makes c) : (∀ e, sess.stage ≠ .failed e) ∧ sess.stage ≠ .shell := by
  cases h with
  | connect _ _ hst => simp [hst]
  | timeout _ _ hst => simp [hst]
  | loadSecretKey _ hst => simp [hst]
  | authenticate _ hst => simp [hst]
  | channelOpenSession _ _ hst => simp [hst]
  | requestPty _ hst => simp [hst]
  | requestShell _ hst => simp [hst]

/-- The calls of `connect` and `open_shell` are delivered nothing. -/
theorem Makes.delivered (h : sess.Makes c) {io : Io} (hio : c.label = some io) : Driver.Delivered io := by
  cases h with
  | connect r => cases r <;> cases hio; trivial
  | timeout => cases hio; trivial
  | loadSecretKey r => cases r <;> cases hio; trivial
  | authenticate r =>
    rcases r with e | accepted
    · cases hio; trivial
    · cases accepted <;> cases hio <;> trivial
  | channelOpenSession r => cases r <;> cases hio; trivial
  | requestPty r => cases r <;> cases hio; trivial
  | requestShell r => cases r <;> cases hio <;> trivial

/-- A call that succeeds takes the session one stage on. -/
theorem Makes.progress (h : sess.Makes c) (hc : c.failure = none) (hlib : sess.Checked c)
    (hp : Progress sess.config sess.pty sess.asked cs sess.stage) :
    Progress sess.config sess.pty sess.asked (cs ++ [c]) (sess.after c) := by
  cases h with
  | connect r hpc hst =>
    obtain ⟨⟩ | ⟨⟨⟩⟩ := r
    · cases hc
    · obtain ⟨key, hasked⟩ := hlib
      rw [hasked, hst] at hp
      rw [hasked]
      cases hp
      case opening ho => cases ho
      simp only [after, Session.authenticate]
      cases ha : sess.config.auth with
      | password pw => exact .presenting key (.password ha)
      | publicKey path passphrase => exact .loading key ha
  | timeout => cases hc
  | loadSecretKey r hst ha =>
    cases r with
    | error e => cases hc
    | ok secret =>
      rw [hst] at hp
      generalize hask : sess.asked = asked at hp ⊢
      cases hp with
      | loading key => exact .presenting key (.publicKey secret ha)
      | opening key hp ho => cases ho
  | authenticate r hst =>
    rw [hst] at hp
    generalize hask : sess.asked = asked at hp ⊢
    cases hp with
    | presenting key hp =>
      rcases r with e | accepted
      · cases hc
      · cases accepted with
        | false => cases hc
        | true => exact .opening key hp .channelOpen
    | opening key hp ho => cases ho
  | channelOpenSession r hpc hst =>
    obtain ⟨⟩ | ⟨⟨⟩⟩ := r
    · cases hc
    · rw [hst] at hp
      generalize hask : sess.asked = asked at hp ⊢
      cases hp with
      | opening key hp ho =>
        cases ho
        rw [List.append_assoc]
        exact .opening key hp .requestPty
  | requestPty r hst =>
    obtain ⟨⟩ | ⟨⟨⟩⟩ := r
    · cases hc
    · rw [hst] at hp
      generalize hask : sess.asked = asked at hp ⊢
      cases hp with
      | opening key hp ho =>
        cases ho
        rw [List.append_assoc]
        exact .opening key hp .requestShell
  | requestShell r hst =>
    obtain ⟨⟩ | ⟨⟨⟩⟩ := r
    · cases hc
    · rw [hst] at hp
      generalize hask : sess.asked = asked at hp ⊢
      cases hp with
      | opening key hp ho =>
        cases ho
        rw [List.append_assoc]
        exact .opening key hp .shell

/-- **A step extends the log.** -/
theorem Log.step (h : Log cs sess) (hs : sess.Stepped lib home disk c sess' disk') (hlib : sess.Checked c) :
    Log (cs ++ [c]) sess' := by
  obtain ⟨hdrv, hdel, hprog, hio⟩ := h
  cases hs with
  | asked key hpc hst hasked =>
    refine ⟨by simpa [labels_concat, LibraryCall.label, LibraryCall.failure] using hdrv,
      by simpa [labels_concat, LibraryCall.label, LibraryCall.failure] using hdel, ?_, by simpa using hio⟩
    rw [hasked, hst] at hprog
    generalize hcs : libraryCalls cs = calls at hprog
    cases hprog with
    | idle =>
      rw [libraryCalls_concat, hcs, hst]
      exact .asked key _
  | call hm hpc =>
    refine ⟨?_, fun io hio => ?_, ?_, fun io hmem => ?_⟩
    · rw [labels_concat]
      exact Lts.run_trans hdrv hpc
    · rw [labels_concat] at hio
      rcases List.mem_append.1 hio with hio | hio
      · exact hdel io hio
      · exact hm.delivered (Option.mem_toList.1 hio)
    · rw [libraryCalls_concat, if_pos hm.isLibrary]
      unfold stageAfter
      cases hc : c.failure with
      | some e => exact .failed hprog hm.stage.1 hm.stage.2 hc
      | none => exact hm.progress hc hlib hprog
    · rcases List.mem_append.1 hmem with hmem | hmem
      · exact hio io hmem
      · cases List.mem_singleton.1 hmem
        cases hm.isLibrary
  | io hpc hconnect hopen hd =>
    refine ⟨?_, fun io hio => ?_, ?_, fun io hmem => ?_⟩
    · rw [labels_concat]
      exact Lts.run_trans hdrv (by simp [LibraryCall.label, hpc])
    · rw [labels_concat] at hio
      rcases List.mem_append.1 hio with hio | hio
      · exact hdel io hio
      · cases Option.mem_toList.1 hio
        exact hd
    · rw [libraryCalls_concat]
      simpa [LibraryCall.isLibrary] using hprog
    · rcases List.mem_append.1 hmem with hmem | hmem
      · exact hio io hmem
      · cases List.mem_singleton.1 hmem
        exact ⟨hconnect, hopen⟩

end Session

/-! ## Announcements -/

section Announces

variable {config : SshConfig} {pty : PtyConfig} {asked : Option (Key × Except RusshError Bool)}
  {cs : List (LibraryCall Key Secret)} {stage : Stage Secret} {c : LibraryCall Key Secret} {sess : Session Key Secret}

/-- The calls of a session with an accepted credential. -/
theorem Progress.accepted (h : Progress config pty asked cs stage) {cred : Credential Secret}
    (hm : .authenticate cred (.ok true) ∈ cs) : ∃ key cred load rest, Presents config cred load ∧
      cs = dialled key ++ load ++ .authenticate cred (.ok true) :: rest := by
  have hload : ∀ {config : SshConfig} {cred' : Credential Secret} {load : List (LibraryCall Key Secret)},
      Presents config cred' load → .authenticate cred (.ok true) ∉ load := fun hp => by cases hp <;> simp
  induction h with
  | idle | asked | loading => simp [dialled] at hm
  | presenting key hp => simp [dialled, hload hp] at hm
  | opening key hp ho => exact ⟨key, _, _, _, hp, rfl⟩
  | @failed asked cs stage c e h hst hshell hc ih =>
    rcases List.mem_append.1 hm with hm | hm
    · obtain ⟨key, cred, load, rest, hp, rfl⟩ := ih hm
      exact ⟨key, cred, load, rest ++ [c], hp, by simp⟩
    · rw [← List.mem_singleton.1 hm] at hc
      cases hc

/-- The shell was asked for last. -/
theorem Progress.opened (h : Progress config pty asked cs stage) (hm : .requestShell (.ok ()) ∈ cs) :
    stage = .shell := by
  have hload : ∀ {config : SshConfig} {cred' : Credential Secret} {load : List (LibraryCall Key Secret)},
      Presents config cred' load → .requestShell (.ok ()) ∉ load := fun hp => by cases hp <;> simp
  induction h with
  | idle | asked | loading => simp [dialled] at hm
  | presenting key hp => simp [dialled, hload hp] at hm
  | opening key hp ho => cases ho <;> first | rfl | simp [dialled, hload hp] at hm
  | failed h hst hshell hc ih =>
    rcases List.mem_append.1 hm with hm | hm
    · exact absurd (ih hm) hshell
    · rw [← List.mem_singleton.1 hm] at hc
      cases hc

/-- A call that failed was the last one, and the first to fail. -/
theorem Progress.failing (h : Progress config pty asked cs stage) {e : SshError} (hm : c ∈ cs)
    (hc : c.failure = some e) : ∃ init, cs = init ++ [c] ∧ ∀ c ∈ init, c.failure = none := by
  by_cases hst : ∀ e, stage ≠ .failed e
  · rw [h.failure hst hm] at hc
    cases hc
  · cases h with
    | @failed asked cs stage c' e' h hopen hshell hc' =>
      rcases List.mem_append.1 hm with hm | hm
      · rw [h.failure hopen hm] at hc
        cases hc
      · rw [List.mem_singleton.1 hm]
        exact ⟨cs, rfl, fun c hc => h.failure hopen hc⟩
    | opening key hp ho => exact absurd ho.not_failed hst
    | _ => exact absurd (fun _ h => nomatch h) hst

/-- The call whose outcome `connect` returned. -/
theorem label_connect_ok (h : c.label = some (.connect (.ok ()))) :
    c = .io (.connect (.ok ())) ∨ ∃ cred, c = .authenticate cred (.ok true) := by
  unfold LibraryCall.label at h
  split at h
  · exact .inr ⟨_, rfl⟩
  · cases h
  · cases h
    exact .inl rfl
  · obtain ⟨e, -, h⟩ := Option.map_eq_some_iff.1 h
    split at h <;> cases h

theorem label_openShell_ok (h : c.label = some (.openShell (.ok ()))) :
    c = .io (.openShell (.ok ())) ∨ c = .requestShell (.ok ()) := by
  unfold LibraryCall.label at h
  split at h
  · cases h
  · exact .inr rfl
  · cases h
    exact .inl rfl
  · obtain ⟨e, -, h⟩ := Option.map_eq_some_iff.1 h
    split at h <;> cases h

/-- The call whose error `connect` or `open_shell` returned. -/
theorem label_error {e : SshError} (h : c.label = some (.connect (.error e)) ∨ c.label = some (.openShell (.error e))) :
    c = .io (.connect (.error e)) ∨ c = .io (.openShell (.error e)) ∨ c.failure = some e := by
  unfold LibraryCall.label at h
  split at h
  · rcases h with h | h <;> cases h
  · rcases h with h | h <;> cases h
  · rcases h with h | h <;> cases h
    · exact .inl rfl
    · exact .inr (.inl rfl)
  · rcases h with h | h
    all_goals
      obtain ⟨e', he', h⟩ := Option.map_eq_some_iff.1 h
      split at h <;> cases h
      exact .inr (.inr he')

/-- **What a session announces is true.** -/
structure Announces (cs : List (LibraryCall Key Secret)) (sess : Session Key Secret) : Prop where
  /-- The server's key was accepted, and then the credential of the configuration. -/
  authenticated : .stateChanged .authenticated ∈ Driver.sent (labels cs) → ∃ key cred load rest,
    Presents sess.config cred load ∧ libraryCalls cs = dialled key ++ load ++ .authenticate cred (.ok true) :: rest
  /-- After that, the server was asked for a channel, a terminal of the configured size and a shell. -/
  shellOpen : .stateChanged .shellOpen ∈ Driver.sent (labels cs) → ∃ key cred load, Presents sess.config cred load ∧
    libraryCalls cs = dialled key ++ load ++ [.authenticate cred (.ok true), .channelOpenSession (.ok ()),
      .requestPty sess.pty.term sess.pty.cols sess.pty.rows (.ok ()), .requestShell (.ok ())]
  /-- One call failed, the last one, and the message is its error. -/
  failed : ∀ msg, .stateChanged (.failed msg) ∈ Driver.sent (labels cs) → ∃ init c e,
    libraryCalls cs = init ++ [c] ∧ c.failure = some e ∧ msg = e.toString ∧ ∀ c ∈ init, c.failure = none
  stream : sess.pc = .done → Driver.WellFormed (Driver.sent (labels cs))

/-- An event other than the first one is caused by a call. -/
theorem Session.Log.cause (h : sess.Log cs) {ev : SessionEvent} (hev : ev ∈ Driver.sent (labels cs))
    (hne : ev ≠ .stateChanged .connecting) : ∃ c ∈ cs, ∃ io, c.label = some io ∧ ev ∈ Driver.caused io := by
  have hevents := Driver.run_events h.driver h.delivered
  have hmem : ev ∈ .stateChanged .connecting :: (labels cs).flatMap Driver.caused :=
    hevents ▸ List.mem_append_left _ hev
  obtain ⟨io, hio, hev⟩ := List.mem_flatMap.1 ((List.mem_cons.1 hmem).resolve_left hne)
  obtain ⟨c, hc, hlabel⟩ := List.mem_filterMap.1 hio
  exact ⟨c, hc, io, hlabel, hev⟩

/-- The `await` that causes an announcement. -/
theorem caused_state {io : Io} {state : SessionState} (h : .stateChanged state ∈ Driver.caused io) :
    io = .connect (.ok ()) ∧ state = .authenticated ∨ io = .openShell (.ok ()) ∧ state = .shellOpen ∨
      (∃ e : SshError, (io = .connect (.error e) ∨ io = .openShell (.error e)) ∧ state = .failed e.toString) ∨
      state = .closed := by
  cases io with
  | connect r | openShell r =>
    rcases r with e | ⟨⟨⟩⟩
    all_goals
      simp [Driver.caused] at h ⊢
      simp [h]
  | write data r | resize cols rows r => rcases r with e | ⟨⟨⟩⟩ <;> simp [Driver.caused] at h <;> simp [h]
  | recv cmd =>
    cases cmd with
    | none =>
      simp [Driver.caused] at h
      simp [h]
    | some cmd => simp [Driver.caused] at h
  | close r =>
    simp [Driver.caused] at h
    simp [h]
  | wait msg =>
    rcases msg with _ | m
    · simp [Driver.caused] at h
      simp [h]
    cases m with
    | close =>
      simp [Driver.caused] at h
      simp [h]
    | extendedData d ext => by_cases hext : ext = 1 <;> simp [Driver.caused, ChannelMsg.relay, hext] at h
    | _ => simp [Driver.caused, ChannelMsg.relay] at h
  | _ => simp [Driver.caused] at h

theorem Session.Log.announces (h : sess.Log cs) : Announces cs sess := by
  have hmem : ∀ {c : LibraryCall Key Secret}, c ∈ cs → c.isLibrary = true → c ∈ libraryCalls cs := fun hc hlib =>
    List.mem_filter.2 ⟨hc, hlib⟩
  refine ⟨fun hev => ?_, fun hev => ?_, fun msg hev => ?_, fun hdone => ?_⟩
  · obtain ⟨c, hc, io, hlabel, hcaused⟩ := h.cause hev (fun h => nomatch h)
    rcases caused_state hcaused with ⟨rfl, -⟩ | ⟨-, hst⟩ | ⟨e, -, hst⟩ | hst
    · rcases label_connect_ok hlabel with rfl | ⟨cred, rfl⟩
      · exact absurd rfl ((h.io _ hc).1 _)
      · obtain ⟨key, cred, load, rest, hp, hcs⟩ := h.progress.accepted (hmem hc rfl)
        exact ⟨key, cred, load, rest, hp, hcs⟩
    all_goals cases hst
  · obtain ⟨c, hc, io, hlabel, hcaused⟩ := h.cause hev (fun h => nomatch h)
    rcases caused_state hcaused with ⟨-, hst⟩ | ⟨rfl, -⟩ | ⟨e, -, hst⟩ | hst
    · cases hst
    · rcases label_openShell_ok hlabel with rfl | rfl
      · exact absurd rfl ((h.io _ hc).2 _)
      · have hstage := h.progress.opened (hmem hc rfl)
        have hprog := h.progress
        rw [hstage] at hprog
        generalize hcs : libraryCalls cs = calls at hprog ⊢
        generalize sess.asked = asked at hprog
        cases hprog with
        | opening key hp ho =>
          cases ho
          exact ⟨key, _, _, hp, rfl⟩
    all_goals cases hst
  · obtain ⟨c, hc, io, hlabel, hcaused⟩ := h.cause hev (fun h => nomatch h)
    rcases caused_state hcaused with ⟨-, hst⟩ | ⟨-, hst⟩ | ⟨e, hio, hst⟩ | hst
    · cases hst
    · cases hst
    · cases hst
      have hfail : c.failure = some e := by
        rcases label_error (hio.imp (fun h => h ▸ hlabel) (fun h => h ▸ hlabel)) with rfl | rfl | hfail
        · exact absurd rfl ((h.io _ hc).1 _)
        · exact absurd rfl ((h.io _ hc).2 _)
        · exact hfail
      have hlib : c.isLibrary = true := by cases c <;> first | rfl | cases hfail
      obtain ⟨init, hinit, hnone⟩ := h.progress.failing (hmem hc hlib) hfail
      exact ⟨init, c, e, hinit, hfail, rfl, hnone⟩
    · cases hst
  · exact Driver.stream_wellFormed (hdone ▸ h.driver) h.delivered

end Announces

/-! ## The sessions of a run -/

namespace Sessions

variable [DecidableEq Secret] {lib : RusshKeys File Key} {home : Str} {disk : Disk File}
  {s s' : Sessions File Key Secret} {a : SessionsAct Key Secret} {l : List (SessionsAct Key Secret)}

/-- The logs of the sessions; an identifier is given once. -/
structure Logs (l : List (SessionsAct Key Secret)) (s : Sessions File Key Secret) : Prop where
  fresh : ∀ id, s.counter ≤ id → s.live id = none ∧ callsOf id l = []
  live : ∀ id sess, s.live id = some sess → sess.Log (callsOf id l)

omit [DecidableEq Secret] in
theorem counter_le (h : Stepped lib home s a s') : s.counter ≤ s'.counter := by
  cases h with
  | spawn => exact Nat.le_succ _
  | _ => exact Nat.le_refl _

theorem logs_step (h : Logs l s) (ha : Checks s a) (hs : step lib home s a = some s') : Logs (l ++ [a]) s' := by
  have hst := stepped_of_step hs
  refine ⟨fun id hid => ?_, fun id sess hsess => ?_⟩
  · -- an identifier that was not given yet
    obtain ⟨hnone, hcalls⟩ := h.fresh id (Nat.le_trans (counter_le hst) hid)
    constructor
    · cases hsess : s'.live id with
      | none => rfl
      | some sess =>
        cases hst.follows hsess with
        | spawned haspawn hcounter =>
          subst haspawn
          cases hst
          exact absurd (hcounter ▸ hid) (Nat.not_succ_le_self _)
        | stepped _ hlive => rw [hnone] at hlive; cases hlive
        | same _ hlive => rw [hnone] at hlive; cases hlive
    · rw [callsOf_concat, hcalls]
      refine callsOf_other fun c hac => ?_
      subst hac
      cases hst with
      | call hlive => rw [hnone] at hlive; cases hlive
  · rw [callsOf_concat]
    cases hst.follows hsess with
    | spawned haspawn hid =>
      rw [(h.fresh id hid.ge).2, haspawn]
      exact .new _ _
    | @stepped c old _ hac hlive hsess' =>
      subst hac
      rw [callsOf_call]
      exact (h.live id old hlive).step hsess' (ha old hlive)
    | same hac hlive =>
      rw [callsOf_other hac, List.append_nil]
      exact h.live id sess hlive

/-- **Every session of an interleaving is a run of the driver, with its calls in order.** -/
theorem run_logs (h : Lts.run (step lib home) { disk } l = some s)
    (hlib : Lts.Each (step lib home) Checks { disk } l) : Logs l s :=
  Lts.run_trace_each (I := Logs) (fun hI ha hs => logs_step hI ha hs)
    ⟨fun _ _ => ⟨rfl, rfl⟩, fun _ _ h => by cases h⟩ hlib h

/-- **In any interleaving of sessions, what each of them announces is true**, as long as the library connects only where
`check_server_key` returned `Ok(true)`. -/
theorem announces_truly (h : Lts.run (step lib home) { disk } l = some s)
    (hlib : Lts.Each (step lib home) Checks { disk } l) {id : Nat} {sess : Session Key Secret}
    (hlive : s.live id = some sess) : Announces (callsOf id l) sess := ((run_logs h hlib).live id sess hlive).announces

theorem announces_twoSessions : ∃ s sess, Lts.run (step listKeys ['s']) { disk := ownDisk } twoSessions = some s ∧
    s.live 1 = some sess ∧ .stateChanged .shellOpen ∈ Driver.sent (labels (callsOf 1 twoSessions)) ∧
    Announces (callsOf 1 twoSessions) sess := by
  have hrun : ((Lts.run (step listKeys ['s']) { disk := ownDisk } twoSessions).bind fun s => s.live 1).isSome := by
    decide +kernel
  have hlib : Lts.Each (step listKeys ['s']) Checks { disk := ownDisk } twoSessions := by decide +kernel
  obtain ⟨sess, hsess⟩ := Option.isSome_iff_exists.1 hrun
  obtain ⟨s, hs, hlive⟩ := Option.bind_eq_some_iff.1 hsess
  exact ⟨s, sess, hs, hlive, by decide +kernel, announces_truly hs hlib hlive⟩

end Sessions

end TinySsh
