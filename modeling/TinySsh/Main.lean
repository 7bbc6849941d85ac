import TinySsh.Target
import TinySsh.Client.Announce
import TinySsh.Client.Trust
import TinySsh.Ui

/-!
# The command line

`main` and `build_auth` (`main.rs`): the session that a command line asks for. Whatever a process presents to a server
follows from its command line: the user is the text in front of the first `@`, a password is presented only without a
private key, and none of it before the server's key was checked for the host and the port that were given
(`run_presented`).
-/

namespace TinySsh

open Text

/-- The arguments, as clap leaves them. -/
structure Cli where
  target : Str
  port : Option Nat := none
  key : Option Str := none
  passwordEnv : Option Str := none
  passphraseEnv : Option Str := none

inductive VarError
  | notPresent | notUnicode
deriving DecidableEq

/-- What `main` reads on its way. -/
structure Outside where
  /-- `std::env::var` -/
  var : Str → Except VarError Str
  /-- `rpassword::prompt_password` -/
  promptPassword : Str → Except String Str
  /-- `History::open_default` -/
  openDefault : Except String History
  /-- `crossterm::terminal::size` -/
  size : Option (Nat × Nat)
  /-- The data directory of the application. -/
  dataDir : Option Str

inductive MainError
  | target (e : TargetError)
  | notSet (var : Str) (e : VarError)
  | readPassword (e : String)
  | history (e : String)

def MainError.text : MainError → String
  | .target e => e.text
  | .notSet var _ => "env var `" ++ String.ofList var ++ "` is not set"
  | .readPassword _ => "failed to read password"
  | .history _ => "failed to open history database"

def passwordPrompt (user host : Str) : Str := "password for ".toList ++ user ++ '@' :: host ++ ": ".toList

def buildAuth (user host : Str) (cli : Cli) (out : Outside) : Except MainError AuthMethod :=
  match cli.key with
  | some path =>
    let passphrase := match cli.passphraseEnv with
      | some var => (out.var var).toOption.filter (· ≠ [])
      | none => none
    .ok (.publicKey path passphrase)
  | none =>
    let pw := match cli.passwordEnv with
      | some var => (out.var var).mapError (MainError.notSet var)
      | none => (out.promptPassword (passwordPrompt user host)).mapError MainError.readPassword
    pw.map .password

/-- What `main` passes on to `spawn_session` and `run_tui`. -/
structure Launch where
  config : SshConfig
  pty : PtyConfig
  history : History
  host : Str
  user : Str

def main (cli : Cli) (out : Outside) : Except MainError Launch := do
  let (user, host, portFromTarget) ← (parseTarget cli.target).mapError .target
  let port := (cli.port.or portFromTarget).getD 22
  let auth ← buildAuth user host cli out
  let history ← out.openDefault.mapError .history
  let (fullCols, fullRows) := out.size.getD (80, 24)
  let (vtCols, vtRows) := vtDims fullCols fullRows
  let pty : PtyConfig := { term := "xterm-256color", cols := vtCols, rows := vtRows }
  .ok { config := (SshConfig.new host user auth out.dataDir).withPort port, pty, history, host, user }

/-! ## What is presented -/

variable {cli : Cli} {out : Outside} {user host : Str} {auth : AuthMethod} {launch : Launch}

/-- The secret that a command line names. The passphrase is the value of the variable, if there is one that is not
empty. -/
inductive Named (cli : Cli) (out : Outside) (user host : Str) : AuthMethod → Prop
  | key {path : Str} {passphrase : Option Str} (hkey : cli.key = some path)
      (hpass : ∀ p, passphrase = some p ↔ p ≠ [] ∧ ∃ var, cli.passphraseEnv = some var ∧ out.var var = .ok p) :
      Named cli out user host (.publicKey path passphrase)
  | variable {var pw : Str} (hkey : cli.key = none) (henv : cli.passwordEnv = some var) (hvar : out.var var = .ok pw) :
      Named cli out user host (.password pw)
  | typed {pw : Str} (hkey : cli.key = none) (henv : cli.passwordEnv = none)
      (hprompt : out.promptPassword (passwordPrompt user host) = .ok pw) : Named cli out user host (.password pw)

theorem mapError_ok {ε ε' α : Type} {x : Except ε α} {f : ε → ε'} {a : α} : x.mapError f = .ok a ↔ x = .ok a := by
  cases x <;> simp [Except.mapError]

theorem toOption_eq_some {ε α : Type} {x : Except ε α} {a : α} : x.toOption = some a ↔ x = .ok a := by
  cases x <;> simp [Except.toOption]

theorem named_of_buildAuth (h : buildAuth user host cli out = .ok auth) : Named cli out user host auth := by
  unfold buildAuth at h
  cases hkey : cli.key with
  | some path =>
    simp only [hkey, Except.ok.injEq] at h
    subst h
    refine .key hkey fun p => ?_
    cases hvar : cli.passphraseEnv with
    | none => simp
    | some var =>
      simp only [Option.filter_eq_some_iff, toOption_eq_some, decide_eq_true_eq, Option.some.injEq, exists_eq_left']
      exact and_comm
  | none =>
    simp only [hkey] at h
    obtain ⟨pw, hpw, rfl⟩ := except_map_ok.1 h
    cases hvar : cli.passwordEnv with
    | some var =>
      rw [hvar] at hpw
      exact .variable hkey hvar (mapError_ok.1 hpw)
    | none =>
      rw [hvar] at hpw
      exact .typed hkey hvar (mapError_ok.1 hpw)

/-- **What `main` makes of a command line.** -/
structure Asked (cli : Cli) (out : Outside) (config : SshConfig) : Prop where
  user : ∃ rest port, cli.target = config.user ++ '@' :: rest ∧ '@' ∉ config.user ∧ config.user ≠ [] ∧
    ReadAs rest config.host port ∧ config.port = (cli.port.or port).getD 22
  auth : Named cli out config.user config.host config.auth
  policy : config.hostKeyPolicy = .defaultKnownHosts out.dataDir

theorem asked_of_main (h : main cli out = .ok launch) : Asked cli out launch.config := by
  obtain ⟨⟨user, host, port⟩, htarget, h⟩ := except_bind_ok.1 h
  obtain ⟨auth, hauth, h⟩ := except_bind_ok.1 h
  obtain ⟨history, -, h⟩ := except_bind_ok.1 h
  cases h
  obtain ⟨rest, hs, hnoAt, huser, hread⟩ := readAs_of_ok (mapError_ok.1 htarget)
  exact ⟨⟨rest, port, hs, hnoAt, huser, hread, rfl⟩, named_of_buildAuth hauth, rfl⟩

/-! ## Over the sessions of a process -/

namespace Sessions

variable {File Key Secret : Type} [DecidableEq Secret] {lib : RusshKeys File Key} {home : Str} {disk : Disk File}
  {s s' : Sessions File Key Secret} {a : SessionsAct Key Secret} {l l₁ l₂ : List (SessionsAct Key Secret)} {id : Nat}
  {cred : Credential Secret} {r : Except String Bool}

/-- The sessions are those that the command line asks for. -/
def FromMain (cli : Cli) (out : Outside) : SessionsAct Key Secret → Prop
  | .spawn config pty => ∃ launch, main cli out = .ok launch ∧ launch.config = config ∧ launch.pty = pty
  | _ => True

omit [DecidableEq Secret] in
theorem config_of_stepped {sess sess' : Session Key Secret} {disk' : Disk File} {c : LibraryCall Key Secret}
    (h : sess.Stepped lib home disk c sess' disk') : sess'.config = sess.config := by
  cases h <;> rfl

omit [DecidableEq Secret] in
/-- The verdict on a key depends on the configuration and the disk. -/
theorem check_congr {sess sess' : Session Key Secret} (h : sess'.config = sess.config) (key : Key) (disk : Disk File) :
    sess'.check lib home key disk = sess.check lib home key disk := by
  unfold Session.check
  rw [h]

/-- A key was checked with a verdict, on the disk of its time. -/
def CheckedIn (lib : RusshKeys File Key) (home : Str) (disk : Disk File) (l : List (SessionsAct Key Secret))
    (sess : Session Key Secret) (asked : Key × Except RusshError Bool) : Prop :=
  ∃ l₀ t, l₀ <+: l ∧ Lts.run (step lib home) { disk } l₀ = some t ∧ (sess.check lib home asked.1 t.disk).1 = asked.2

theorem CheckedIn.mono {sess sess' : Session Key Secret} {asked : Key × Except RusshError Bool}
    (h : CheckedIn lib home disk l sess asked) (hconfig : sess'.config = sess.config)
    (a : SessionsAct Key Secret) : CheckedIn lib home disk (l ++ [a]) sess' asked := by
  obtain ⟨l₀, t, hpre, ht, hverdict⟩ := h
  exact ⟨l₀, t, hpre.trans (List.prefix_append _ _), ht, by rw [check_congr hconfig, hverdict]⟩

/-- The invariant of a session: it is the one that the command line asks for, and its verdict is one of its time. -/
structure Given (cli : Cli) (out : Outside) (lib : RusshKeys File Key) (home : Str) (disk : Disk File)
    (l : List (SessionsAct Key Secret)) (sess : Session Key Secret) : Prop where
  asked : Asked cli out sess.config
  checked : ∀ asked, sess.asked = some asked → CheckedIn lib home disk l sess asked

theorem given_step (hr : Lts.run (step lib home) { disk } l = some s)
    (h : ∀ id sess, s.live id = some sess → Given cli out lib home disk l sess) (ha : FromMain cli out a)
    (hs : step lib home s a = some s') :
    ∀ id sess, s'.live id = some sess → Given cli out lib home disk (l ++ [a]) sess := by
  intro id sess hsess
  cases (stepped_of_step hs).follows hsess with
  | spawned haspawn =>
    subst haspawn
    obtain ⟨launch, hmain, rfl, -⟩ := ha
    exact ⟨asked_of_main hmain, fun _ hasked => by cases hasked⟩
  | @stepped c old _ _ hlive hst =>
    obtain ⟨hasked, hchecked⟩ := h id old hlive
    refine ⟨config_of_stepped hst ▸ hasked, fun asked hsome => ?_⟩
    generalize s'.disk = disk' at hst
    cases hst with
    | asked key =>
      cases hsome
      exact ⟨l, s, List.prefix_append _ _, hr, congrArg Prod.fst (check_congr rfl key s.disk)⟩
    | call | io => exact (hchecked asked hsome).mono rfl a
  | same _ hlive =>
    obtain ⟨hasked, hchecked⟩ := h id sess hlive
    exact ⟨hasked, fun asked hsome => (hchecked asked hsome).mono rfl a⟩

theorem run_given (h : Lts.run (step lib home) { disk } l = some s) (hmain : ∀ a ∈ l, FromMain cli out a) :
    ∀ id sess, s.live id = some sess → Given cli out lib home disk l sess := by
  have hI := Lts.run_trace (I := fun l (s : Sessions File Key Secret) =>
      Lts.run (step lib home) { disk } l = some s ∧
        ∀ id sess, s.live id = some sess → Given cli out lib home disk l sess)
    (fun hI ha hs => ⟨Lts.run_trans hI.1 (by simp [hs]), given_step hI.1 hI.2 ha hs⟩)
    ⟨rfl, fun _ _ hlive => by cases hlive⟩ hmain h
  exact hI.2

/-- **What a credential is, and what came before it is presented**: the user and the secret are those of the command
line; the library connected, and the key of the server had been accepted for the host and the port. -/
structure Presented (cli : Cli) (out : Outside) (lib : RusshKeys File Key) (home : Str) (disk : Disk File)
    (l : List (SessionsAct Key Secret)) (id : Nat) (sess : Session Key Secret) (cred : Credential Secret) : Prop where
  asked : Asked cli out sess.config
  calls : ∃ key load, libraryCalls (callsOf id l) = dialled key ++ load ∧ Presents sess.config cred load ∧
    CheckedIn lib home disk l sess (key, .ok true)

/-- **Whatever is presented to a server follows from the command line**, in any interleaving of the sessions that it
asks for, as long as the library connects only where `check_server_key` returned `Ok(true)`. -/
theorem run_presented (h : Lts.run (step lib home) { disk } l = some s)
    (hlib : Lts.Each (step lib home) Checks { disk } l) (hmain : ∀ a ∈ l, FromMain cli out a)
    (hsplit : l = l₁ ++ .call id (.authenticate cred r) :: l₂) : ∃ t sess,
      Lts.run (step lib home) { disk } l₁ = some t ∧ t.live id = some sess ∧
      Presented cli out lib home disk l₁ id sess cred := by
  subst hsplit
  obtain ⟨t, ht, -⟩ := Lts.run_append_some h
  obtain ⟨sess, sess', disk', hlive, hs⟩ := call_of_run h ht
  have hstage : sess.stage = .authenticate cred := by
    cases hs with
    | call hm =>
      cases hm with
      | authenticate _ hst => exact hst
  obtain ⟨hasked, hchecked⟩ := run_given ht (fun a ha => hmain a (List.mem_append_left _ ha)) id sess hlive
  have hprogress := ((run_logs ht hlib.initial).live id sess hlive).progress
  refine ⟨t, sess, ht, hlive, hasked, ?_⟩
  rw [hstage] at hprogress
  generalize sess.asked = asked at hprogress hchecked
  generalize libraryCalls (callsOf id l₁) = cs at hprogress ⊢
  cases hprogress with
  | presenting key hp => exact ⟨key, _, rfl, hp, hchecked _ rfl⟩
  | opening _ _ ho => cases ho

/-- `tssh u@h:2222 --password-env P` -/
def commandLine : Cli := { target := ['u', '@', 'h', ':', '2', '2', '2', '2'], passwordEnv := some ['P'] }

def terminalWindow : Outside where
  var name := if name = ['P'] then .ok ['p'] else .error .notPresent
  promptPassword _ := .error "no terminal"
  openDefault := .ok {}
  size := some (80, 25)
  dataDir := some ['d']

def oneSession : List (SessionsAct HostKey Nat) :=
  [.spawn firstConfig {}, .call 1 (.io (.send (.stateChanged .connecting) true)), .call 1 (.checkServerKey firstKey),
   .call 1 (.connect (.ok ())), .call 1 (.authenticate (.password ['u'] ['p']) (.ok true))]

theorem presented_oneSession : ∃ t sess,
    Lts.run (step listKeys ['s']) { disk := ownDisk } (oneSession.take 4) = some t ∧ t.live 1 = some sess ∧
    Presented commandLine terminalWindow listKeys ['s'] ownDisk (oneSession.take 4) 1 sess
      (.password ['u'] ['p']) := by
  have hrun : (Lts.run (step listKeys ['s']) { disk := ownDisk } oneSession).isSome := by decide +kernel
  obtain ⟨s, hs⟩ := Option.isSome_iff_exists.1 hrun
  have hmain : ∀ a ∈ oneSession, FromMain commandLine terminalWindow a := by
    simp only [oneSession, List.forall_mem_cons, FromMain, List.not_mem_nil, false_imp_iff, implies_true,
      and_true]
    exact ⟨_, rfl, rfl, rfl⟩
  exact run_presented hs (by decide +kernel) hmain rfl

end Sessions

end TinySsh
