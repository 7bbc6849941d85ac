import TinySsh.Client

/-!
# Whom a session talks to

Sessions of one process in any interleaving, with any configurations, share the `known_hosts` files. Whatever a session
sends to its server or reads from it after the handshake, the credential first of all, goes to a server whose key was
accepted (`Session.Met`). The files only grow (`Check.keeps`), so that a key on record stays there.

* `run_trusted`: under a policy with files, the key is on record at that time, and does not contradict the user's own
  file. A session that accepts any key, as one without a data directory does, looks at no file and is promised no more
  than the acceptance.
* `run_known`: where no session learns unknown hosts, the key was on record from the start.
-/

namespace TinySsh

open Text

variable {File Key Secret Alg : Type} {lib : RusshKeys File Key} {facts : KeyFacts File Key Alg} {home path : Str}
  {disk disk' : Disk File} {host : Str} {port : Nat} {onUnknown : TofuPolicy} {key : Key}

/-! ## One check -/

/-- A file that can be read can be extended. -/
def Writable (lib : RusshKeys File Key) (facts : KeyFacts File Key Alg) : Prop := ∀ host port key file,
  facts.readable file → ∃ file', lib.learnKnownHosts host port key file = .ok file'

/-- An unknown key that can be recorded is. -/
theorem learned_of_writable (hdoc : Documented lib facts) (hw : Writable lib facts) {homeFile file : File}
    (hhome : facts.readable homeFile) (hfile : facts.readable file) (hu : Unknown facts host port key homeFile file) :
    ∃ file', lib.learnKnownHosts host port key file = .ok file' ∧
      ClientHandler.checkServerKey lib ⟨.knownHosts path .acceptOnFirst, host, port⟩ key homeFile file =
        (.ok true, file') := by
  obtain ⟨file', hl⟩ := hw host port key file hfile
  refine ⟨file', hl, ?_⟩
  simp only [ClientHandler.checkServerKey, hdoc.unknown hhome hu.changedHome hu.home,
    hdoc.unknown hfile hu.changedFile hu.file, ClientHandler.learnOrRefuse, hl]

/-- What a check leaves, where the disk was `disk`. -/
structure Check (facts : KeyFacts File Key Alg) (home path host : Str) (port : Nat) (onUnknown : TofuPolicy) (key : Key)
    (disk : Disk File) (verdict : Except RusshError Bool) (disk' : Disk File) : Prop where
  readable : ∀ q, facts.readable (disk' q)
  keeps : ∀ q h p k, facts.records (disk q) h p k → facts.records (disk' q) h p k
  other : ∀ q, q ≠ path → disk' q = disk q
  unchallenged : verdict = .ok true → ¬facts.Changed (disk home) host port key
  reject : onUnknown = .rejectUnknown → disk' = disk ∧
    (verdict = .ok true → facts.records (disk home) host port key ∨ facts.records (disk path) host port key)

/-- **What a check leaves**, by what the two files say of the key. -/
theorem check_connection (hdoc : Documented lib facts) (hread : ∀ q, facts.readable (disk q)) :
    let r := ClientHandler.checkServerKey lib ⟨.knownHosts path onUnknown, host, port⟩ key (disk home) (disk path)
    Check facts home path host port onUnknown key disk r.1 (Function.update disk path r.2) := by
  intro r
  have hc : Checked lib facts host port onUnknown key (disk home) (disk path) r := checked hdoc (hread _) (hread _)
  have hsame : Function.update disk path (disk path) = disk := Function.update_eq_self path disk
  have hother : ∀ q, q ≠ path → Function.update disk path r.2 q = disk q := fun q hq => Function.update_of_ne hq _ _
  generalize r = r at hc hother ⊢
  cases hc with
  | changedHome | changedFile | refused =>
    rw [hsame]
    exact ⟨hread, fun _ _ _ _ h => h, fun _ _ => rfl, (fun h => nomatch h), fun _ => ⟨rfl, fun h => nomatch h⟩⟩
  | trustedHome h hk =>
    rw [hsame]
    exact ⟨hread, fun _ _ _ _ h => h, fun _ _ => rfl, fun _ => h, fun _ => ⟨rfl, fun _ => .inl hk⟩⟩
  | trustedFile hh h hk =>
    rw [hsame]
    exact ⟨hread, fun _ _ _ _ h => h, fun _ _ => rfl, fun _ => hh, fun _ => ⟨rfl, fun _ => .inr hk⟩⟩
  | notLearned hu hp =>
    rw [hsame]
    exact ⟨hread, fun _ _ _ _ h => h, fun _ _ => rfl, fun _ => hu.changedHome,
      fun hrej => by rw [hp] at hrej; cases hrej⟩
  | learned file hu hp hl =>
    obtain ⟨hfile, hrec⟩ := hdoc.learn (hread path) hl
    refine ⟨fun q => ?_, fun q h p k hk => ?_, hother, fun _ => hu.changedHome,
      fun hrej => by rw [hp] at hrej; cases hrej⟩
    · by_cases hq : q = path
      · rw [hq, Function.update_self]
        exact hfile
      · rw [hother q hq]
        exact hread q
    · by_cases hq : q = path
      · subst hq
        rw [Function.update_self]
        exact (hrec h p k).2 (.inl hk)
      · rw [hother q hq]
        exact hk

/-- An accepted key is on record afterwards, where an unknown one can be recorded. -/
theorem check_recorded (hdoc : Documented lib facts) (hw : Writable lib facts) (hread : ∀ q, facts.readable (disk q)) :
    let r := ClientHandler.checkServerKey lib ⟨.knownHosts path onUnknown, host, port⟩ key (disk home) (disk path)
    r.1 = .ok true → facts.records (disk home) host port key ∨
      facts.records (Function.update disk path r.2 path) host port key := by
  intro r hr
  have hc : Checked lib facts host port onUnknown key (disk home) (disk path) r := checked hdoc (hread _) (hread _)
  rw [Function.update_self]
  have hlearn : Unknown facts host port key (disk home) (disk path) → onUnknown = .acceptOnFirst →
      facts.records r.2 host port key := fun hu hp => by
    subst hp
    obtain ⟨file', hl, hcheck⟩ := learned_of_writable hdoc hw (hread home) (hread path) hu
    have hfile : r.2 = file' := congrArg Prod.snd hcheck
    rw [hfile]
    exact ((hdoc.learn (hread path) hl).2 _ _ _).2 (.inr ⟨rfl, rfl, rfl⟩)
  generalize r = r at hc hr hlearn ⊢
  cases hc with
  | changedHome | changedFile | refused => cases hr
  | trustedHome h hk => exact .inl hk
  | trustedFile hh h hk => exact .inr hk
  | learned file hu hp hl => exact .inr (hlearn hu hp)
  | notLearned hu hp => exact .inr (hlearn hu hp)

/-! ## Sessions with an accepted key -/

/-- The call sends something to the server, or reads from it, after the handshake. -/
def LibraryCall.talks : LibraryCall Key Secret → Bool
  | .authenticate .. | .channelOpenSession _ | .requestPty .. | .requestShell _ => true
  | .io (.write ..) | .io (.resize ..) | .io (.close _) | .io (.disconnect _) | .io (.wait _) => true
  | _ => false

/-- Only events are ahead of the task, or the connection. -/
def quiet : Pc → Bool
  | .send _ ok err => quiet ok && quiet err
  | .connect | .done => true
  | _ => false

namespace Session

variable {s s' : Session Key Secret} {c : LibraryCall Key Secret}

/-- The server's key was accepted, or there is no connection. -/
inductive Met (s : Session Key Secret) : Prop
  | accepted (key : Key) (h : s.asked = some (key, .ok true))
  | apart (hpc : quiet s.pc = true) (hst : s.stage = .connect ∨ ∃ e, s.stage = .failed e)

theorem met_new (config : SshConfig) (pty : PtyConfig) : ({ config, pty } : Session Key Secret).Met :=
  .apart rfl (.inl rfl)

/-- The connection fails. -/
theorem met_connectFails {pc : Pc} {e : SshError} (hpc : s.pc = .connect) (hfail : c.failure = some e)
    (hlabel : c.label = some (.connect (.error e))) (h : Lts.run Driver.step s.pc c.label.toList = some pc) :
    ({ s with pc, stage := s.stageAfter c } : Session Key Secret).Met := by
  rw [hlabel, hpc] at h
  cases h
  refine .apart rfl (.inr ⟨e, ?_⟩)
  simp only [stageAfter, hfail]

/-- **A session without an accepted key does not talk to a server**: a step keeps it so. -/
theorem Met.step (h : s.Met) (hs : s.Stepped lib home disk c s' disk') (hc : s.Checked c) : s'.Met := by
  cases h with
  | accepted key hasked =>
    cases hs with
    | asked key' hpc hst hno =>
      rw [hasked] at hno
      cases hno
    | call => exact .accepted key hasked
    | io => exact .accepted key hasked
  | apart hpc hst =>
    cases hs with
    | asked key' hpc' hst' => exact .apart hpc hst
    | call hm hrun =>
      cases hm with
      | connect r hpc' hst' =>
        obtain e | ⟨⟨⟩⟩ := r
        · exact met_connectFails hpc' rfl rfl hrun
        · obtain ⟨key, hasked⟩ := hc
          exact .accepted key hasked
      | timeout secs hpc' hst' => exact met_connectFails hpc' rfl rfl hrun
      | loadSecretKey r hst' => simp [hst'] at hst
      | authenticate r hst' => simp [hst'] at hst
      | channelOpenSession r hpc' hst' => simp [hst'] at hst
      | requestPty r hst' => simp [hst'] at hst
      | requestShell r hst' => simp [hst'] at hst
    | @io label pc hrun hconnect hopen hd =>
      refine .apart ?_ hst
      show quiet pc = true
      have hm := Driver.moves_of_step hrun hd
      generalize s.pc = pc₀ at hpc hm
      cases hm with
      | send => exact (Bool.and_eq_true_iff.1 hpc).1
      | connected => exact absurd rfl (hconnect _)
      | notConnected => exact absurd rfl (hconnect _)
      | _ => cases hpc

/-- A session that talks to its server has accepted its key. -/
theorem Met.talks (h : s.Met) (hs : s.Stepped lib home disk c s' disk') (hc : c.talks = true) :
    ∃ key, s.asked = some (key, .ok true) := by
  cases h with
  | accepted key hasked => exact ⟨key, hasked⟩
  | apart hpc hst =>
    exfalso
    cases hs with
    | asked => cases hc
    | call hm hrun =>
      cases hm with
      | connect | timeout | loadSecretKey => cases hc
      | authenticate r hst' => simp [hst'] at hst
      | channelOpenSession r hpc' hst' => simp [hst'] at hst
      | requestPty r hst' => simp [hst'] at hst
      | requestShell r hst' => simp [hst'] at hst
    | io hrun hconnect hopen hd =>
      have hm := Driver.moves_of_step hrun hd
      generalize s.pc = pc₀ at hpc hm
      cases hm with
      | send | connected | notConnected | opened | notOpened | input => cases hc
      | _ => cases hpc

/-! ## Keys on record -/

/-- The server's key was accepted. Unless the policy accepts any key, it is on record in one of the two files, and the
user's own file has no other key of its algorithm for the host. Under `AcceptAny` neither is promised. -/
structure Trusted (facts : KeyFacts File Key Alg) (home : Str) (disk : Disk File) (s : Session Key Secret) (key : Key) :
    Prop where
  accepted : s.asked = some (key, .ok true)
  recorded : ∀ path onUnknown, s.config.hostKeyPolicy = .knownHosts path onUnknown →
    facts.records (disk home) s.config.host s.config.port key ∨
      facts.records (disk path) s.config.host s.config.port key
  unchallenged : ∀ path onUnknown, s.config.hostKeyPolicy = .knownHosts path onUnknown →
    ¬facts.Changed (disk home) s.config.host s.config.port key

/-- Growing files keep what is on record. -/
theorem Trusted.mono (h : s.Trusted facts home disk key)
    (hkeeps : ∀ q h p k, facts.records (disk q) h p k → facts.records (disk' q) h p k) (hhome : disk' home = disk home)
    (hconfig : s'.config = s.config) (hasked : s'.asked = s.asked) : s'.Trusted facts home disk' key := by
  refine ⟨hasked ▸ h.accepted, fun path onUnknown hp => ?_, fun path onUnknown hp => ?_⟩ <;> rw [hconfig] at hp ⊢
  · exact (h.recorded path onUnknown hp).imp (hkeeps _ _ _ _) (hkeeps _ _ _ _)
  · rw [hhome]
    exact h.unchallenged path onUnknown hp

/-- Only the check of the key changes the disk, the key asked for, or neither. -/
theorem Stepped.checks (h : s.Stepped lib home disk c s' disk') : s'.config = s.config ∧
    (disk' = disk ∧ s'.asked = s.asked ∨
      ∃ key, s'.asked = some (key, (s.check lib home key disk).1) ∧ disk' = (s.check lib home key disk).2) := by
  cases h with
  | asked key => exact ⟨rfl, .inr ⟨key, rfl, rfl⟩⟩
  | call | io => exact ⟨rfl, .inl ⟨rfl, rfl⟩⟩

/-- The check of a policy that accepts any key leaves the disk as it is. -/
theorem check_acceptAny (hp : s.config.hostKeyPolicy = .acceptAny) (key : Key) (disk : Disk File) :
    (s.check lib home key disk).2 = disk := by
  unfold check
  split
  · rfl
  · rename_i hp'
    rw [hp] at hp'
    cases hp'

theorem check_knownHosts (hp : s.config.hostKeyPolicy = .knownHosts path onUnknown) (key : Key) (disk : Disk File) :
    let r := ClientHandler.checkServerKey lib ⟨.knownHosts path onUnknown, s.config.host, s.config.port⟩ key
      (disk home) (disk path)
    s.check lib home key disk = (r.1, Function.update disk path r.2) := by
  unfold check
  split
  · rename_i hp'
    rw [hp] at hp'
    cases hp'
  · rename_i path' onUnknown' hp'
    rw [hp] at hp'
    cases hp'
    rw [hp]

/-- **What a step of a session leaves on the disk**: files only grow, and only at the path of the policy. -/
theorem Stepped.files (h : s.Stepped lib home disk c s' disk') (hdoc : Documented lib facts)
    (hread : ∀ q, facts.readable (disk q)) : (∀ q, facts.readable (disk' q)) ∧
      (∀ q h p k, facts.records (disk q) h p k → facts.records (disk' q) h p k) ∧
      ∀ q, (∀ path onUnknown, s.config.hostKeyPolicy = .knownHosts path onUnknown → q ≠ path) → disk' q = disk q := by
  obtain ⟨-, ⟨rfl, -⟩ | ⟨key, -, rfl⟩⟩ := h.checks
  · exact ⟨hread, fun _ _ _ _ hk => hk, fun _ _ => rfl⟩
  · cases hp : s.config.hostKeyPolicy with
    | acceptAny =>
      rw [check_acceptAny hp]
      exact ⟨hread, fun _ _ _ _ hk => hk, fun _ _ => rfl⟩
    | knownHosts path onUnknown =>
      rw [check_knownHosts hp]
      have hcheck : Check facts home path s.config.host s.config.port onUnknown key disk _ _ :=
        check_connection hdoc hread
      exact ⟨hcheck.readable, hcheck.keeps, fun q hq => hcheck.other q (hq path onUnknown rfl)⟩

/-- A key that has just been accepted is on record, where an unknown one can be recorded. -/
theorem trusted_check (hdoc : Documented lib facts) (hw : Writable lib facts) (hread : ∀ q, facts.readable (disk q))
    (hforeign : ∀ path onUnknown, s.config.hostKeyPolicy = .knownHosts path onUnknown → home ≠ path) {key : Key}
    (hok : (s.check lib home key disk).1 = .ok true) :
    ({ s with asked := some (key, (s.check lib home key disk).1) } : Session Key Secret).Trusted facts home
      (s.check lib home key disk).2 key := by
  refine ⟨by rw [hok], fun path onUnknown hp => ?_, fun path onUnknown hp => ?_⟩
  all_goals
    replace hp : s.config.hostKeyPolicy = .knownHosts path onUnknown := hp
    have hcheck : Check facts home path s.config.host s.config.port onUnknown key disk _ _ :=
      check_connection hdoc hread
    rw [check_knownHosts hp] at hok ⊢
    dsimp only at hok ⊢
  · rw [hcheck.other home (hforeign path onUnknown hp)]
    exact check_recorded hdoc hw hread hok
  · rw [hcheck.other home (hforeign path onUnknown hp)]
    exact hcheck.unchallenged hok

variable (home) in
/-- Under the policy that learns no host, a check leaves the disk as it is, and an accepted key was on record. -/
theorem trusted_reject (hdoc : Documented lib facts) (hread : ∀ q, facts.readable (disk q)) (key : Key)
    (hp : s.config.hostKeyPolicy = .knownHosts path .rejectUnknown) : (s.check lib home key disk).2 = disk ∧
      ((s.check lib home key disk).1 = .ok true →
        ({ s with asked := some (key, (s.check lib home key disk).1) } : Session Key Secret).Trusted facts home disk
          key) := by
  have hcheck : Check facts home path s.config.host s.config.port .rejectUnknown key disk _ _ :=
    check_connection hdoc hread
  rw [check_knownHosts hp]
  refine ⟨(hcheck.reject rfl).1, fun hok => ⟨by rw [hok], fun path' onUnknown' hp' => ?_, fun _ _ _ => ?_⟩⟩
  · rw [hp] at hp'
    cases hp'
    exact (hcheck.reject rfl).2 hok
  · exact hcheck.unchallenged hok

end Session

/-! ## Runs -/

namespace Sessions

variable [DecidableEq Secret] {s s' : Sessions File Key Secret} {a : SessionsAct Key Secret}
  {l : List (SessionsAct Key Secret)}

omit [DecidableEq Secret] in
/-- A step of the sessions, as one of the calling session. -/
theorem Stepped.files (h : Stepped lib home s a s') (hdoc : Documented lib facts)
    (hread : ∀ q, facts.readable (s.disk q)) : (∀ q, facts.readable (s'.disk q)) ∧
      (∀ q h p k, facts.records (s.disk q) h p k → facts.records (s'.disk q) h p k) ∧
      ∀ q, (∀ id sess path onUnknown, s.live id = some sess → sess.config.hostKeyPolicy = .knownHosts path onUnknown →
        q ≠ path) → s'.disk q = s.disk q := by
  cases h with
  | spawn | drop => exact ⟨hread, fun _ _ _ _ hk => hk, fun _ _ => rfl⟩
  | @call id c sess sess' disk hlive hs =>
    obtain ⟨hread', hkeeps, hother⟩ := hs.files hdoc hread
    exact ⟨hread', hkeeps, fun q hq => hother q fun path onUnknown hp => hq id sess path onUnknown hlive hp⟩

/-- The policy of a session that is started does not write to the user's own file. -/
def Foreign (home : Str) : SessionsAct Key Secret → Prop
  | .spawn config _ => ∀ path onUnknown, config.hostKeyPolicy = .knownHosts path onUnknown → home ≠ path
  | _ => True

/-- The invariant of the sessions. -/
structure Sound (facts : KeyFacts File Key Alg) (home : Str) (s : Sessions File Key Secret) : Prop where
  readable : ∀ q, facts.readable (s.disk q)
  foreign : ∀ id sess path onUnknown, s.live id = some sess →
    sess.config.hostKeyPolicy = .knownHosts path onUnknown → home ≠ path
  met : ∀ id sess, s.live id = some sess → sess.Met
  trusted : ∀ id sess key, s.live id = some sess → sess.asked = some (key, .ok true) →
    sess.Trusted facts home s.disk key

theorem sound_step (hdoc : Documented lib facts) (hw : Writable lib facts) (h : Sound facts home s) (hc : Checks s a)
    (hf : Foreign home a) (hs : step lib home s a = some s') : Sound facts home s' := by
  have hst := stepped_of_step hs
  obtain ⟨hread, hkeeps, hother⟩ := hst.files hdoc h.readable
  have hhome : s'.disk home = s.disk home := hother home h.foreign
  refine ⟨hread, fun id sess path onUnknown hlive hp => ?_, fun id sess hlive => ?_, fun id sess key hlive hasked => ?_⟩
  · cases hst.follows hlive with
    | spawned ha => subst ha; exact hf path onUnknown hp
    | @stepped c old _ ha hold hs' => exact h.foreign id old path onUnknown hold (hs'.checks.1 ▸ hp)
    | same ha hold => exact h.foreign id sess path onUnknown hold hp
  · cases hst.follows hlive with
    | spawned => exact Session.met_new _ _
    | @stepped c old _ ha hold hs' =>
      subst ha
      exact (h.met id old hold).step hs' (hc old hold)
    | same ha hold => exact h.met id sess hold
  · cases hst.follows hlive with
    | spawned => cases hasked
    | @stepped c old _ ha hold hs' =>
      generalize s'.disk = disk at hs' hkeeps hhome ⊢
      cases hs' with
      | asked key' hpc hst hno =>
        obtain ⟨rfl, hok⟩ := Prod.mk.inj (Option.some.inj hasked)
        exact Session.trusted_check hdoc hw h.readable (fun path onUnknown => h.foreign id old path onUnknown hold) hok
      | call | io => exact (h.trusted id old key hold hasked).mono hkeeps hhome rfl rfl
    | same ha hold => exact (h.trusted id sess key hold hasked).mono hkeeps hhome rfl rfl

omit [DecidableEq Secret] in
theorem sound_new (hread : ∀ q, facts.readable (disk q)) :
    Sound facts home ({ disk } : Sessions File Key Secret) :=
  ⟨hread, (fun _ _ _ _ h => by cases h), (fun _ _ h => by cases h), (fun _ _ _ h => by cases h)⟩

/-- A call of a run, in the state before it. -/
theorem call_of_run {l₁ l₂ : List (SessionsAct Key Secret)} {id : Nat} {c : LibraryCall Key Secret}
    {t : Sessions File Key Secret} (h : Lts.run (step lib home) s (l₁ ++ .call id c :: l₂) = some s')
    (ht : Lts.run (step lib home) s l₁ = some t) :
    ∃ sess sess' disk, t.live id = some sess ∧ sess.Stepped lib home t.disk c sess' disk := by
  obtain ⟨t', ht', h⟩ := Lts.run_append_some h
  obtain rfl : t = t' := Option.some.inj (ht.symm.trans ht')
  obtain ⟨u, hu, -⟩ := Lts.run_cons_some h
  cases stepped_of_step hu with
  | call hlive hs => exact ⟨_, _, _, hlive, hs⟩

/-- **In any interleaving of sessions, whoever a session talks to has its key on record, unless the session accepts any
key**: at each of its calls after the handshake, the server's key was accepted, and under a policy with files it is
recorded in one of the two and does not contradict the user's own file. `AcceptAny`, to which `default_known_hosts`
falls back without a data directory, is the exception: there the key was accepted without a look at any file. The files
can be read and extended, and no policy writes to the user's own file. -/
theorem run_trusted (hdoc : Documented lib facts) (hw : Writable lib facts) (hread : ∀ q, facts.readable (disk q))
    (hforeign : ∀ a ∈ l, Foreign home a) (hlib : Lts.Each (step lib home) Checks { disk } l)
    (h : Lts.run (step lib home) { disk } l = some s) : ∀ l₁ l₂ id c t, l = l₁ ++ .call id c :: l₂ →
      c.talks = true → Lts.run (step lib home) { disk } l₁ = some t →
      ∃ sess key, t.live id = some sess ∧ sess.Trusted facts home t.disk key := by
  rintro l₁ l₂ id c t rfl hc ht
  have hI : Sound facts home t := Lts.run_trace_each (P := fun s a => Checks s a ∧ Foreign home a)
    (I := fun _ s => Sound facts home s) (fun hI ha hs => sound_step hdoc hw hI ha.1 ha.2 hs) (sound_new hread)
    (hlib.initial.and_labels fun a ha => hforeign a (List.mem_append_left _ ha)) ht
  obtain ⟨sess, sess', disk', hlive, hs⟩ := call_of_run h ht
  obtain ⟨key, hasked⟩ := (hI.met id sess hlive).talks hs hc
  exact ⟨sess, key, hlive, hI.trusted id sess key hlive hasked⟩

/-- The first of the two sessions sends its password to a key that was learned on first contact. -/
theorem trusted_twoSessions : ∃ t, Lts.run (step listKeys ['s']) { disk := ownDisk } (twoSessions.take 9) = some t ∧
    ∃ sess key, t.live 1 = some sess ∧ sess.Trusted listFacts ['s'] t.disk key := by
  have hrun : (Lts.run (step listKeys ['s']) { disk := ownDisk } twoSessions).isSome := by decide +kernel
  obtain ⟨s, hs⟩ := Option.isSome_iff_exists.1 hrun
  have hsplit : twoSessions = twoSessions.take 9 ++ .call 1 (.authenticate (.password ['u'] ['p']) (.ok true)) ::
    twoSessions.drop 10 := rfl
  obtain ⟨t, ht, -⟩ := Lts.run_append_some (hsplit ▸ hs)
  have hforeign : ∀ a ∈ twoSessions, Foreign ['s'] a := by
    simp [twoSessions, Foreign, firstConfig, SshConfig.new, HostKeyPolicy.defaultKnownHosts, secondConfig]
  exact ⟨t, ht, run_trusted documented_list (fun _ _ _ _ _ => ⟨_, rfl⟩) (fun _ => trivial) hforeign
    (by decide +kernel) hs _ _ _ _ _ hsplit rfl ht⟩

/-! ## Runs that learn no host -/

/-- The policy of a session that is started learns no unknown host. -/
def Rejects : SessionsAct Key Secret → Prop
  | .spawn config _ => ∃ path, config.hostKeyPolicy = .knownHosts path .rejectUnknown
  | _ => True

/-- The invariant of sessions that learn no host, started on a disk. -/
structure Fixed (facts : KeyFacts File Key Alg) (home : Str) (disk : Disk File) (s : Sessions File Key Secret) :
    Prop where
  same : s.disk = disk
  policy : ∀ id sess, s.live id = some sess → ∃ path, sess.config.hostKeyPolicy = .knownHosts path .rejectUnknown
  met : ∀ id sess, s.live id = some sess → sess.Met
  trusted : ∀ id sess key, s.live id = some sess → sess.asked = some (key, .ok true) →
    sess.Trusted facts home disk key

theorem fixed_step (hdoc : Documented lib facts) (hread : ∀ q, facts.readable (disk q)) (h : Fixed facts home disk s)
    (hc : Checks s a) (hr : Rejects a) (hs : step lib home s a = some s') : Fixed facts home disk s' := by
  have hst := stepped_of_step hs
  -- a step of a session that learns no host
  have hone : ∀ {id : Nat} {old sess : Session Key Secret} {c : LibraryCall Key Secret} {disk' : Disk File},
      s.live id = some old → old.Stepped lib home s.disk c sess disk' → disk' = disk ∧
        ∀ key, sess.asked = some (key, .ok true) → sess.Trusted facts home disk key := fun hold hs' => by
    obtain ⟨path, hp⟩ := h.policy _ _ hold
    rw [h.same] at hs'
    cases hs' with
    | asked key hpc hst hno =>
      obtain ⟨hdisk, htrust⟩ := Session.trusted_reject home hdoc hread key hp
      refine ⟨hdisk, fun key' hasked => ?_⟩
      obtain ⟨rfl, hok⟩ := Prod.mk.inj (Option.some.inj hasked)
      exact htrust hok
    | call | io =>
      exact ⟨rfl, fun key hasked => (h.trusted _ _ key hold hasked).mono (fun _ _ _ _ h => h) rfl rfl rfl⟩
  refine ⟨?_, fun id sess hlive => ?_, fun id sess hlive => ?_, fun id sess key hlive hasked => ?_⟩
  · cases hst with
    | spawn | drop => exact h.same
    | call hlive hs' => exact (hone hlive hs').1
  · cases hst.follows hlive with
    | spawned ha => subst ha; exact hr
    | @stepped c old _ ha hold hs' => exact hs'.checks.1 ▸ h.policy id old hold
    | same ha hold => exact h.policy id sess hold
  · cases hst.follows hlive with
    | spawned => exact Session.met_new _ _
    | @stepped c old _ ha hold hs' =>
      subst ha
      exact (h.met id old hold).step hs' (hc old hold)
    | same ha hold => exact h.met id sess hold
  · cases hst.follows hlive with
    | spawned => cases hasked
    | stepped ha hold hs' => exact (hone hold hs').2 key hasked
    | same ha hold => exact h.trusted id sess key hold hasked

/-- **Where no session learns unknown hosts, nobody is talked to whose key was not on record from the start**, and the
disk, whose files can be read, stays as it is. -/
theorem run_known (hdoc : Documented lib facts) (hread : ∀ q, facts.readable (disk q))
    (hreject : ∀ a ∈ l, Rejects a) (hlib : Lts.Each (step lib home) Checks { disk } l)
    (h : Lts.run (step lib home) { disk } l = some s) : s.disk = disk ∧ ∀ l₁ l₂ id c t, l = l₁ ++ .call id c :: l₂ →
      c.talks = true → Lts.run (step lib home) { disk } l₁ = some t →
      ∃ sess key path, t.live id = some sess ∧ sess.config.hostKeyPolicy = .knownHosts path .rejectUnknown ∧
        sess.Trusted facts home disk key ∧ (facts.records (disk home) sess.config.host sess.config.port key ∨
          facts.records (disk path) sess.config.host sess.config.port key) := by
  have hI : ∀ {k : List (SessionsAct Key Secret)} {t : Sessions File Key Secret}, (∀ a ∈ k, Rejects a) →
      Lts.Each (step lib home) Checks { disk } k → Lts.run (step lib home) { disk } k = some t →
      Fixed facts home disk t := fun hk hlib ht =>
    Lts.run_trace_each (P := fun s a => Checks s a ∧ Rejects a) (I := fun _ s => Fixed facts home disk s)
      (fun hI ha hs => fixed_step hdoc hread hI ha.1 ha.2 hs)
      ⟨rfl, (fun _ _ h => by cases h), (fun _ _ h => by cases h), (fun _ _ _ h => by cases h)⟩ (hlib.and_labels hk) ht
  refine ⟨(hI hreject hlib h).same, ?_⟩
  rintro l₁ l₂ id c t rfl hc ht
  have hfixed := hI (fun a ha => hreject a (List.mem_append_left _ ha)) hlib.initial ht
  obtain ⟨sess, sess', disk', hlive, hs⟩ := call_of_run h ht
  obtain ⟨key, hasked⟩ := (hfixed.met id sess hlive).talks hs hc
  obtain ⟨path, hpolicy⟩ := hfixed.policy id sess hlive
  have htrusted := hfixed.trusted id sess key hlive hasked
  exact ⟨sess, key, path, hlive, hpolicy, htrusted, htrusted.recorded path .rejectUnknown hpolicy⟩

/-- A session with a host that the user's own file knows, and one with a host that no file knows. -/
def strangers : List (SessionsAct HostKey Nat) :=
  [.spawn secondConfig {}, .spawn { secondConfig with host := ['x'] } {},
   .call 1 (.io (.send (.stateChanged .connecting) true)), .call 2 (.io (.send (.stateChanged .connecting) true)),
   .call 2 (.checkServerKey firstKey), .call 1 (.checkServerKey otherKey), .call 1 (.connect (.ok ())),
   .call 2 (.connect (.error "Unknown server key")), .call 1 (.loadSecretKey ['i'] none (.ok 7)),
   .call 1 (.authenticate (.publicKey ['v'] 7) (.ok true))]

theorem known_strangers : ∃ s, Lts.run (step listKeys ['s']) { disk := ownDisk } strangers = some s ∧ s.disk = ownDisk ∧
    ∃ t, Lts.run (step listKeys ['s']) { disk := ownDisk } (strangers.take 9) = some t ∧
      ∃ sess key path, t.live 1 = some sess ∧ sess.config.hostKeyPolicy = .knownHosts path .rejectUnknown ∧
        sess.Trusted listFacts ['s'] ownDisk key ∧
        (listFacts.records (ownDisk ['s']) sess.config.host sess.config.port key ∨
          listFacts.records (ownDisk path) sess.config.host sess.config.port key) := by
  have hrun : (Lts.run (step listKeys ['s']) { disk := ownDisk } strangers).isSome := by decide +kernel
  obtain ⟨s, hs⟩ := Option.isSome_iff_exists.1 hrun
  have hsplit : strangers = strangers.take 9 ++ [.call 1 (.authenticate (.publicKey ['v'] 7) (.ok true))] := rfl
  obtain ⟨t, ht, -⟩ := Lts.run_append_some (hsplit ▸ hs)
  have hreject : ∀ a ∈ strangers, Rejects a := by simp [strangers, Rejects, secondConfig]
  obtain ⟨hdisk, htrust⟩ := run_known documented_list (fun _ => trivial) hreject (by decide +kernel) hs
  exact ⟨s, hs, hdisk, t, ht, htrust _ _ _ _ _ hsplit rfl ht⟩

end Sessions

end TinySsh
