import TinySsh.Session.Driver
import TinySsh.HostKeys.Bookkeeping

/-!
# The client

`SshClient::connect`, `authenticate` and `open_shell` (`transport/ssh/client.rs`), call by call into the SSH library,
inside the driver task that awaits them. A `Session` is the driver task with its configuration; `Sessions` are those of
one process, on a disk with the `known_hosts` files, in any interleaving.
-/

namespace TinySsh

open Text

/-! ## Configuration -/

inductive AuthMethod
  | password (pw : Str)
  | publicKey (path : Str) (passphrase : Option Str)
deriving DecidableEq

/-- `default_known_hosts`, given the data directory of the application, if there is one. -/
def HostKeyPolicy.defaultKnownHosts (dataDir : Option Str) : HostKeyPolicy :=
  match dataDir with
  | some dir => .knownHosts (dir ++ "/known_hosts".toList) .acceptOnFirst
  | none => .acceptAny

structure SshConfig where
  host : Str
  port : Nat
  user : Str
  auth : AuthMethod
  hostKeyPolicy : HostKeyPolicy
  /-- In whole seconds. -/
  connectTimeout : Option Nat

def SshConfig.new (host user : Str) (auth : AuthMethod) (dataDir : Option Str) : SshConfig :=
  { host, port := 22, user, auth, hostKeyPolicy := .defaultKnownHosts dataDir, connectTimeout := some 15 }

def SshConfig.withPort (config : SshConfig) (port : Nat) : SshConfig := { config with port }

structure PtyConfig where
  term : String := "xterm-256color"
  cols : Nat := 80
  rows : Nat := 24

/-! ## One session -/

/-- What `authenticate_password` or `authenticate_publickey` presents to the server. -/
inductive Credential (Secret : Type)
  | password (user pw : Str)
  | publicKey (user : Str) (key : Secret)
deriving DecidableEq

/-- The call of `SshClient::connect` or `open_shell` that comes next. -/
inductive Stage (Secret : Type)
  | connect
  | loadKey
  | authenticate (cred : Credential Secret)
  | channelOpen
  | requestPty
  | requestShell
  /-- `open_shell` has returned a session. -/
  | shell
  | failed (e : SshError)
deriving DecidableEq

/-- A completed call into the library with its outcome, or another completed `await` of the driver. -/
inductive LibraryCall (Key Secret : Type)
  /-- The library calls the handler while it connects. -/
  | checkServerKey (key : Key)
  | connect (r : Except String Unit)
  /-- The timer around `client::connect` fires first. -/
  | timeout (secs : Nat)
  | loadSecretKey (path : Str) (passphrase : Option Str) (r : Except String Secret)
  | authenticate (cred : Credential Secret) (r : Except String Bool)
  | channelOpenSession (r : Except String Unit)
  | requestPty (term : String) (cols rows : Nat) (r : Except String Unit)
  | requestShell (r : Except String Unit)
  | io (io : Io)

structure Session (Key Secret : Type) where
  config : SshConfig
  pty : PtyConfig
  pc : Pc := Driver.driverTask
  stage : Stage Secret := .connect
  /-- The key that the server presented, and the verdict on it. -/
  asked : Option (Key × Except RusshError Bool) := none

namespace Session

variable {File Key Secret : Type}

section Model

variable (lib : RusshKeys File Key) (home : Str) (s : Session Key Secret)

/-- `check_server_key` of the session's handler: the verdict, and the disk afterwards. -/
def check (key : Key) (disk : Disk File) : Except RusshError Bool × Disk File :=
  let handler : ClientHandler := { policy := s.config.hostKeyPolicy, host := s.config.host, port := s.config.port }
  match s.config.hostKeyPolicy with
  | .acceptAny => ((handler.checkServerKey lib key (disk home) (disk home)).1, disk)
  | .knownHosts path _ =>
    let (verdict, file) := handler.checkServerKey lib key (disk home) (disk path)
    (verdict, Function.update disk path file)

/-- `authenticate` up to its first call. -/
def authenticate : Stage Secret :=
  match s.config.auth with
  | .password pw => .authenticate (.password s.config.user pw)
  | .publicKey _ _ => .loadKey

/-- The function that the driver awaits returns. -/
def returns (stage : Stage Secret) (io : Io) : Option (Session Key Secret) :=
  (Driver.step s.pc io).map fun pc => { s with pc, stage }

/-- `SshClient::connect` returns an error. -/
def connectFails (e : SshError) : Option (Session Key Secret) := s.returns (.failed e) (.connect (.error e))

/-- `open_shell` returns an error. -/
def openFails (e : SshError) : Option (Session Key Secret) := s.returns (.failed e) (.openShell (.error e))

variable [DecidableEq Secret]

/-- The session after a call. -/
def next : LibraryCall Key Secret → Option (Session Key Secret)
  | .checkServerKey _ => none
  | .connect r =>
    if s.pc = .connect ∧ s.stage = .connect then
      match r with
      | .ok () => some { s with stage := s.authenticate }
      | .error e => s.connectFails (.connect e)
    else none
  | .timeout secs =>
    if s.pc = .connect ∧ s.stage = .connect ∧ s.config.connectTimeout = some secs then
      s.connectFails (.connectTimeout (toString secs ++ "s"))
    else none
  | .loadSecretKey path passphrase r =>
    if s.stage = .loadKey ∧ s.config.auth = .publicKey path passphrase then
      match r with
      | .ok key => some { s with stage := .authenticate (.publicKey s.config.user key) }
      | .error e => s.connectFails (.keyLoad (String.ofList path) e)
    else none
  | .authenticate cred r =>
    if s.stage = .authenticate cred then
      match r with
      | .ok true => s.returns .channelOpen (.connect (.ok ()))
      | .ok false => s.connectFails .authRejected
      | .error e => s.connectFails (.auth e)
    else none
  | .channelOpenSession r =>
    if s.pc = .openShell ∧ s.stage = .channelOpen then
      match r with
      | .ok () => some { s with stage := .requestPty }
      | .error e => s.openFails (.channelOpen e)
    else none
  | .requestPty term cols rows r =>
    if s.stage = .requestPty ∧ term = s.pty.term ∧ cols = s.pty.cols ∧ rows = s.pty.rows then
      match r with
      | .ok () => some { s with stage := .requestShell }
      | .error e => s.openFails (.pty e)
    else none
  | .requestShell r =>
    if s.stage = .requestShell then
      match r with
      | .ok () => s.returns .shell (.openShell (.ok ()))
      | .error e => s.openFails (.shell e)
    else none
  | .io (.connect _) | .io (.openShell _) => none
  -- the handle is alive, and with it the receiver
  | .io (.send _ false) => none
  | .io io => s.returns s.stage io

/-- One completed call or `await` of a session, on the disk. -/
def step (disk : Disk File) : LibraryCall Key Secret → Option (Session Key Secret × Disk File)
  | .checkServerKey key =>
    if s.pc = .connect ∧ s.stage = .connect ∧ s.asked.isNone then
      let (verdict, disk) := s.check lib home key disk
      some ({ s with asked := some (key, verdict) }, disk)
    else none
  | c => (s.next c).map fun s => (s, disk)

end Model

end Session

/-! ## What a call can do -/

/-- The error that a call makes of its outcome. -/
def LibraryCall.failure {Key Secret : Type} : LibraryCall Key Secret → Option SshError
  | .connect (.error e) => some (.connect e)
  | .timeout secs => some (.connectTimeout (toString secs ++ "s"))
  | .loadSecretKey path _ (.error e) => some (.keyLoad (String.ofList path) e)
  | .authenticate _ (.ok false) => some .authRejected
  | .authenticate _ (.error e) => some (.auth e)
  | .channelOpenSession (.error e) => some (.channelOpen e)
  | .requestPty _ _ _ (.error e) => some (.pty e)
  | .requestShell (.error e) => some (.shell e)
  | _ => none

/-- The call is one of `open_shell`. -/
def LibraryCall.opens {Key Secret : Type} : LibraryCall Key Secret → Bool
  | .channelOpenSession _ | .requestPty .. | .requestShell _ => true
  | _ => false

/-- The `await` of the driver that a call completes. -/
def LibraryCall.label {Key Secret : Type} : LibraryCall Key Secret → Option Io
  | .authenticate _ (.ok true) => some (.connect (.ok ()))
  | .requestShell (.ok ()) => some (.openShell (.ok ()))
  | .io label => some label
  | c => c.failure.map fun e => if c.opens then .openShell (.error e) else .connect (.error e)

namespace Session

variable {File Key Secret : Type}

/-- The stage makes the call. -/
inductive Makes (s : Session Key Secret) : LibraryCall Key Secret → Prop
  | connect (r : Except String Unit) (hpc : s.pc = .connect) (hst : s.stage = .connect) : Makes s (.connect r)
  | timeout (secs : Nat) (hpc : s.pc = .connect) (hst : s.stage = .connect) (hd : s.config.connectTimeout = some secs) :
      Makes s (.timeout secs)
  | loadSecretKey {path : Str} {passphrase : Option Str} (r : Except String Secret) (hst : s.stage = .loadKey)
      (ha : s.config.auth = .publicKey path passphrase) : Makes s (.loadSecretKey path passphrase r)
  | authenticate {cred : Credential Secret} (r : Except String Bool) (hst : s.stage = .authenticate cred) :
      Makes s (.authenticate cred r)
  | channelOpenSession (r : Except String Unit) (hpc : s.pc = .openShell) (hst : s.stage = .channelOpen) :
      Makes s (.channelOpenSession r)
  | requestPty (r : Except String Unit) (hst : s.stage = .requestPty) :
      Makes s (.requestPty s.pty.term s.pty.cols s.pty.rows r)
  | requestShell (r : Except String Unit) (hst : s.stage = .requestShell) : Makes s (.requestShell r)

/-- The stage after a call that did not fail. -/
def after (s : Session Key Secret) : LibraryCall Key Secret → Stage Secret
  | .connect _ => s.authenticate
  | .loadSecretKey _ _ (.ok key) => .authenticate (.publicKey s.config.user key)
  | .authenticate .. => .channelOpen
  | .channelOpenSession _ => .requestPty
  | .requestPty .. => .requestShell
  | .requestShell _ => .shell
  | _ => s.stage

/-- The stage after a call. -/
def stageAfter (s : Session Key Secret) (c : LibraryCall Key Secret) : Stage Secret :=
  match c.failure with
  | some e => .failed e
  | none => s.after c

variable {lib : RusshKeys File Key} {home : Str} {s s' : Session Key Secret} {disk disk' : Disk File}
  {c : LibraryCall Key Secret}

/-- What a step can do. -/
inductive Stepped (lib : RusshKeys File Key) (home : Str) (s : Session Key Secret) (disk : Disk File) :
    LibraryCall Key Secret → Session Key Secret → Disk File → Prop
  | asked (key : Key) (hpc : s.pc = .connect) (hst : s.stage = .connect) (hasked : s.asked = none) :
      Stepped lib home s disk (.checkServerKey key)
        { s with asked := some (key, (s.check lib home key disk).1) } (s.check lib home key disk).2
  | call {c : LibraryCall Key Secret} {pc : Pc} (hm : s.Makes c)
      (hpc : Lts.run Driver.step s.pc c.label.toList = some pc) :
      Stepped lib home s disk c { s with pc, stage := s.stageAfter c } disk
  | io {io : Io} {pc : Pc} (hpc : Driver.step s.pc io = some pc) (hconnect : ∀ r, io ≠ .connect r)
      (hopen : ∀ r, io ≠ .openShell r) (hd : Driver.Delivered io) : Stepped lib home s disk (.io io) { s with pc } disk

theorem returns_some {stage : Stage Secret} {io : Io} (h : s.returns stage io = some s') :
    ∃ pc, Lts.run Driver.step s.pc [io] = some pc ∧ s' = { s with pc, stage } := by
  obtain ⟨pc, hpc, rfl⟩ := Option.map_eq_some_iff.1 h
  exact ⟨pc, by simp [hpc], rfl⟩

/-- A call whose outcome completes an `await` of the driver. -/
theorem stepped_returns {stage : Stage Secret} {io : Io} (hm : s.Makes c) (hst : s.stageAfter c = stage)
    (hio : c.label = some io) (h : s.returns stage io = some s') : Stepped lib home s disk c s' disk := by
  obtain ⟨pc, hpc, rfl⟩ := returns_some h
  subst hst
  exact .call hm (by rw [hio]; exact hpc)

/-- A call after which the client makes another one. -/
theorem stepped_goes {stage : Stage Secret} (hm : s.Makes c) (hst : s.stageAfter c = stage) (hio : c.label = none)
    (h : some { s with stage } = some s') : Stepped lib home s disk c s' disk := by
  cases h
  subst hst
  exact .call hm (by rw [hio]; rfl)

variable [DecidableEq Secret]

theorem stepped_of_step (h : s.step lib home disk c = some (s', disk')) : Stepped lib home s disk c s' disk' := by
  have hnext : ∀ c : LibraryCall Key Secret, (s.next c).map (fun s => (s, disk)) = some (s', disk') →
      s.next c = some s' ∧ disk' = disk := fun c h => by
    obtain ⟨t, ht, h⟩ := Option.map_eq_some_iff.1 h
    cases h
    exact ⟨ht, rfl⟩
  cases c with
  | checkServerKey key =>
    simp only [step, Option.ite_none_right_eq_some, Option.isNone_iff_eq_none, Option.some.injEq, Prod.mk.injEq] at h
    obtain ⟨⟨hpc, hst, hasked⟩, rfl, rfl⟩ := h
    exact .asked key hpc hst hasked
  | connect r =>
    obtain ⟨hn, rfl⟩ := hnext (.connect r) h
    simp only [next, Option.ite_none_right_eq_some] at hn
    obtain ⟨⟨hpc, hst⟩, hn⟩ := hn
    cases r with
    | ok => exact stepped_goes (.connect _ hpc hst) rfl rfl hn
    | error e => exact stepped_returns (.connect _ hpc hst) rfl rfl hn
  | timeout secs =>
    obtain ⟨hn, rfl⟩ := hnext (.timeout secs) h
    simp only [next, Option.ite_none_right_eq_some] at hn
    obtain ⟨⟨hpc, hst, hd⟩, hn⟩ := hn
    exact stepped_returns (.timeout _ hpc hst hd) rfl rfl hn
  | loadSecretKey path passphrase r =>
    obtain ⟨hn, rfl⟩ := hnext (.loadSecretKey path passphrase r) h
    simp only [next, Option.ite_none_right_eq_some] at hn
    obtain ⟨⟨hst, ha⟩, hn⟩ := hn
    cases r with
    | ok key => exact stepped_goes (.loadSecretKey _ hst ha) rfl rfl hn
    | error e => exact stepped_returns (.loadSecretKey _ hst ha) rfl rfl hn
  | authenticate cred r =>
    obtain ⟨hn, rfl⟩ := hnext (.authenticate cred r) h
    simp only [next, Option.ite_none_right_eq_some] at hn
    obtain ⟨hst, hn⟩ := hn
    rcases r with e | accepted
    · exact stepped_returns (.authenticate _ hst) rfl rfl hn
    · cases accepted with
      | true => exact stepped_returns (.authenticate _ hst) rfl rfl hn
      | false => exact stepped_returns (.authenticate _ hst) rfl rfl hn
  | channelOpenSession r =>
    obtain ⟨hn, rfl⟩ := hnext (.channelOpenSession r) h
    simp only [next, Option.ite_none_right_eq_some] at hn
    obtain ⟨⟨hpc, hst⟩, hn⟩ := hn
    cases r with
    | ok => exact stepped_goes (.channelOpenSession _ hpc hst) rfl rfl hn
    | error e => exact stepped_returns (.channelOpenSession _ hpc hst) rfl rfl hn
  | requestPty term cols rows r =>
    obtain ⟨hn, rfl⟩ := hnext (.requestPty term cols rows r) h
    simp only [next, Option.ite_none_right_eq_some] at hn
    obtain ⟨⟨hst, rfl, rfl, rfl⟩, hn⟩ := hn
    cases r with
    | ok => exact stepped_goes (.requestPty _ hst) rfl rfl hn
    | error e => exact stepped_returns (.requestPty _ hst) rfl rfl hn
  | requestShell r =>
    obtain ⟨hn, rfl⟩ := hnext (.requestShell r) h
    simp only [next, Option.ite_none_right_eq_some] at hn
    obtain ⟨hst, hn⟩ := hn
    cases r with
    | ok => exact stepped_returns (.requestShell _ hst) rfl rfl hn
    | error e => exact stepped_returns (.requestShell _ hst) rfl rfl hn
  | io io =>
    obtain ⟨hn, rfl⟩ := hnext (.io io) h
    have hio : (∀ r, io ≠ .connect r) ∧ (∀ r, io ≠ .openShell r) ∧ Driver.Delivered io ∧
        s.returns s.stage io = some s' := by
      cases io with
      | connect r | openShell r => cases hn
      | send ev delivered =>
        cases delivered with
        | false => cases hn
        | true => exact ⟨(fun _ h => nomatch h), (fun _ h => nomatch h), rfl, hn⟩
      | _ => exact ⟨(fun _ h => nomatch h), (fun _ h => nomatch h), trivial, hn⟩
    obtain ⟨hconnect, hopen, hd, hret⟩ := hio
    obtain ⟨pc, hpc, rfl⟩ := Option.map_eq_some_iff.1 hret
    exact .io hpc hconnect hopen hd

end Session

/-! ## The sessions of a process -/

structure Sessions (File Key Secret : Type) where
  disk : Disk File
  /-- The sessions whose handle is alive, by `SessionId`. -/
  live : Nat → Option (Session Key Secret) := fun _ => none
  /-- The counter of `SessionId::next`. -/
  counter : Nat := 1

inductive SessionsAct (Key Secret : Type)
  | spawn (config : SshConfig) (pty : PtyConfig)
  | call (id : Nat) (c : LibraryCall Key Secret)
  /-- The handle is dropped, which aborts the driver. -/
  | drop (id : Nat)

namespace Sessions

variable {File Key Secret : Type} [DecidableEq Secret] (lib : RusshKeys File Key) (home : Str)

def step (s : Sessions File Key Secret) : SessionsAct Key Secret → Option (Sessions File Key Secret)
  | .spawn config pty => some
    { s with live := Function.update s.live s.counter (some { config, pty }), counter := s.counter + 1 }
  | .call id c => do
    let sess ← s.live id
    let (sess, disk) ← sess.step lib home s.disk c
    some { s with disk, live := Function.update s.live id (some sess) }
  | .drop id => (s.live id).map fun _ => { s with live := Function.update s.live id none }

/-- What a step can do. -/
inductive Stepped (lib : RusshKeys File Key) (home : Str) (s : Sessions File Key Secret) :
    SessionsAct Key Secret → Sessions File Key Secret → Prop
  | spawn {config : SshConfig} {pty : PtyConfig} : Stepped lib home s (.spawn config pty)
      { s with live := Function.update s.live s.counter (some { config, pty }), counter := s.counter + 1 }
  | call {id : Nat} {c : LibraryCall Key Secret} {sess sess' : Session Key Secret} {disk : Disk File}
      (hlive : s.live id = some sess) (hs : sess.Stepped lib home s.disk c sess' disk) :
      Stepped lib home s (.call id c) { s with disk, live := Function.update s.live id (some sess') }
  | drop {id : Nat} : Stepped lib home s (.drop id) { s with live := Function.update s.live id none }

variable {lib} {home} {s s' : Sessions File Key Secret} {a : SessionsAct Key Secret}

theorem stepped_of_step (h : step lib home s a = some s') : Stepped lib home s a s' := by
  cases a with
  | spawn config pty => cases h; exact .spawn
  | call id c =>
    obtain ⟨sess, hlive, h⟩ := Option.bind_eq_some_iff.1 h
    obtain ⟨⟨sess', disk⟩, hs, h⟩ := Option.bind_eq_some_iff.1 h
    cases h
    exact .call hlive (Session.stepped_of_step hs)
  | drop id =>
    obtain ⟨sess, hlive, rfl⟩ := Option.map_eq_some_iff.1 h
    exact .drop

/-- Where a session that is alive after a step comes from. -/
inductive Follows (lib : RusshKeys File Key) (home : Str) (s : Sessions File Key Secret) (a : SessionsAct Key Secret)
    (disk : Disk File) (id : Nat) : Session Key Secret → Prop
  | spawned {config : SshConfig} {pty : PtyConfig} (ha : a = .spawn config pty) (hid : id = s.counter)
      (hdisk : disk = s.disk) : Follows lib home s a disk id { config, pty }
  | stepped {c : LibraryCall Key Secret} {sess sess' : Session Key Secret} (ha : a = .call id c)
      (hlive : s.live id = some sess) (hs : sess.Stepped lib home s.disk c sess' disk) :
      Follows lib home s a disk id sess'
  | same {sess : Session Key Secret} (ha : ∀ c, a ≠ .call id c) (hlive : s.live id = some sess) :
      Follows lib home s a disk id sess

omit [DecidableEq Secret] in
theorem Stepped.follows (h : Stepped lib home s a s') {id : Nat} {sess : Session Key Secret}
    (hlive : s'.live id = some sess) : Follows lib home s a s'.disk id sess := by
  cases h with
  | @spawn config pty =>
    replace hlive : Function.update s.live s.counter (some { config, pty }) id = some sess := hlive
    by_cases hid : id = s.counter
    · rw [hid, Function.update_self] at hlive
      cases hlive
      exact .spawned rfl hid rfl
    · rw [Function.update_of_ne hid] at hlive
      exact .same (fun _ h => nomatch h) hlive
  | @call id' c old new disk hold hs =>
    replace hlive : Function.update s.live id' (some new) id = some sess := hlive
    by_cases hid : id = id'
    · subst hid
      rw [Function.update_self] at hlive
      cases hlive
      exact .stepped rfl hold hs
    · rw [Function.update_of_ne hid] at hlive
      exact .same (fun _ h => by cases h; exact hid rfl) hlive
  | @drop id' =>
    replace hlive : Function.update s.live id' none id = some sess := hlive
    by_cases hid : id = id'
    · rw [hid, Function.update_self] at hlive
      cases hlive
    · rw [Function.update_of_ne hid] at hlive
      exact .same (fun _ h => nomatch h) hlive

end Sessions

/-! ## What is relied on -/

/-- The library connects only where `check_server_key` returned `Ok(true)`. -/
def Session.Checked {Key Secret : Type} (sess : Session Key Secret) : LibraryCall Key Secret → Prop
  | .connect (.ok ()) => ∃ key, sess.asked = some (key, .ok true)
  | _ => True

instance {Key Secret : Type} (sess : Session Key Secret) : ∀ c, Decidable (sess.Checked c)
  | .connect (.ok ()) =>
    match h : sess.asked with
    | some (key, .ok true) => isTrue ⟨key, h⟩
    | some (_, .ok false) | some (_, .error _) | none => isFalse fun ⟨_, hk⟩ => nomatch h.symm.trans hk
  | .connect (.error _) | .checkServerKey _ | .timeout _ | .loadSecretKey .. | .authenticate ..
  | .channelOpenSession _ | .requestPty .. | .requestShell _ | .io _ => isTrue trivial

/-- **In every session, the library connects only where `check_server_key` returned `Ok(true)`.** -/
def Sessions.Checks {File Key Secret : Type} (s : Sessions File Key Secret) : SessionsAct Key Secret → Prop
  | .call id c => ∀ sess, s.live id = some sess → sess.Checked c
  | _ => True

instance {File Key Secret : Type} (s : Sessions File Key Secret) : ∀ a, Decidable (s.Checks a)
  | .call id c =>
    match h : s.live id with
    | some sess => decidable_of_iff (sess.Checked c)
        ⟨fun hc _ hs => Option.some.inj (h.symm.trans hs) ▸ hc, fun hc => hc sess h⟩
    | none => isTrue fun _ hs => nomatch h.symm.trans hs
  | .spawn .. | .drop _ => isTrue trivial

/-- A password for a host that is trusted on first contact, and a key for one that the user's own file knows. -/
def firstConfig : SshConfig := { SshConfig.new ['h'] ['u'] (.password ['p']) (some ['d']) with port := 2222 }

def secondConfig : SshConfig where
  host := ['g']
  port := 22
  user := ['v']
  auth := .publicKey ['i'] none
  hostKeyPolicy := .knownHosts ['k'] .rejectUnknown
  connectTimeout := none

/-- Two sessions in turns: the first one gets its shell, the second one is rejected. -/
def twoSessions : List (SessionsAct HostKey Nat) :=
  [.spawn firstConfig {}, .call 1 (.io (.send (.stateChanged .connecting) true)), .spawn secondConfig {},
   .call 1 (.checkServerKey firstKey), .call 2 (.io (.send (.stateChanged .connecting) true)),
   .call 2 (.checkServerKey otherKey), .call 1 (.connect (.ok ())), .call 2 (.connect (.ok ())),
   .call 2 (.loadSecretKey ['i'] none (.ok 7)), .call 1 (.authenticate (.password ['u'] ['p']) (.ok true)),
   .call 2 (.authenticate (.publicKey ['v'] 7) (.ok false)),
   .call 1 (.io (.send (.stateChanged .authenticated) true)), .call 1 (.channelOpenSession (.ok ())),
   .call 2 (.io (.send (.error "authentication rejected by server") true)),
   .call 1 (.requestPty "xterm-256color" 80 24 (.ok ())), .call 1 (.requestShell (.ok ())),
   .call 1 (.io (.send (.stateChanged .shellOpen) true))]

end TinySsh
