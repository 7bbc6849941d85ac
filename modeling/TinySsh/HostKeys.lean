import TinySsh.Lib.Lts
import TinySsh.Lib.Text

/-!
# Host keys

The decision whether to trust a server's key (`check_server_key` in `transport/ssh/client.rs`). The functions that
read and extend a `known_hosts` file belong to a library and are a parameter (`RusshKeys`); what is relied on is
`Documented`.

Trust on first use is meant to bind: later keys must match. The library reports a changed key only within one algorithm,
so a key of another algorithm counts as unknown and is accepted and recorded in its turn (`binding_iff`). Both this and
the bookkeeping of later runs rest on one case analysis (`checked`).
-/

namespace TinySsh

open Text

/-! ## The policy -/

/-- What to do with a server never seen before. -/
inductive TofuPolicy
  | acceptOnFirst | rejectUnknown
deriving DecidableEq

inductive HostKeyPolicy
  | knownHosts (path : Str) (onUnknown : TofuPolicy)
  | acceptAny
deriving DecidableEq

/-- The errors of the library that the code distinguishes. -/
inductive KeysError
  | keyChanged (line : Nat)
  | other
deriving DecidableEq

/-- The errors of `check_server_key`. -/
inductive RusshError
  | keyChanged (line : Nat)
  | unknownKey
deriving DecidableEq

/-- The functions of the library, on the content of the file they read or extend. -/
structure RusshKeys (File Key : Type) where
  checkKnownHosts : Str → Nat → Key → File → Except KeysError Bool
  learnKnownHosts : Str → Nat → Key → File → Except KeysError File

structure ClientHandler where
  policy : HostKeyPolicy
  host : Str
  port : Nat

section Model

variable {File Key : Type} (lib : RusshKeys File Key)

/-- The branch of `check_server_key` for an unknown host: learn it or refuse. A key that cannot be recorded is
accepted. -/
def ClientHandler.learnOrRefuse (handler : ClientHandler) (onUnknown : TofuPolicy) (key : Key) (file : File) :
    Except RusshError Bool × File :=
  match onUnknown with
  | .acceptOnFirst =>
    match lib.learnKnownHosts handler.host handler.port key file with
    | .ok file' => (.ok true, file')
    | .error _ => (.ok true, file)
  | .rejectUnknown => (.error .unknownKey, file)

/-- `check_server_key`, with the user's own file `home` (read only) and the file at the policy's path: the verdict,
and that file afterwards. -/
def ClientHandler.checkServerKey (handler : ClientHandler) (key : Key) (home file : File) :
    Except RusshError Bool × File :=
  match handler.policy with
  | .acceptAny => (.ok true, file)
  | .knownHosts _ onUnknown =>
    match lib.checkKnownHosts handler.host handler.port key home with
    | .ok true => (.ok true, file)
    | .error (.keyChanged line) => (.error (.keyChanged line), file)
    | .ok false | .error .other =>
      match lib.checkKnownHosts handler.host handler.port key file with
      | .ok true => (.ok true, file)
      | .error (.keyChanged line) => (.error (.keyChanged line), file)
      | .ok false | .error .other => handler.learnOrRefuse lib onUnknown key file

/-! ## What is relied on -/

/-- The facts about a library: which files can be read, which keys a file records for a host and port, and the
algorithm of a key. -/
structure KeyFacts (File Key Alg : Type) where
  readable : File → Prop
  records : File → Str → Nat → Key → Prop
  alg : Key → Alg

/-- The file records another key of the same algorithm. -/
def KeyFacts.Changed {Alg : Type} (facts : KeyFacts File Key Alg) (file : File) (host : Str) (port : Nat) (key : Key) :
    Prop := ∃ k, facts.records file host port k ∧ k ≠ key ∧ facts.alg k = facts.alg key

/-- **The documented behaviour of the library.** -/
structure Documented {Alg : Type} (facts : KeyFacts File Key Alg) : Prop where
  changed {file : File} {host : Str} {port : Nat} {key : Key} (hr : facts.readable file)
    (h : facts.Changed file host port key) : ∃ line, lib.checkKnownHosts host port key file = .error (.keyChanged line)
  known {file : File} {host : Str} {port : Nat} {key : Key} (hr : facts.readable file)
    (h : ¬facts.Changed file host port key) (hk : facts.records file host port key) :
    lib.checkKnownHosts host port key file = .ok true
  unknown {file : File} {host : Str} {port : Nat} {key : Key} (hr : facts.readable file)
    (h : ¬facts.Changed file host port key) (hk : ¬facts.records file host port key) :
    lib.checkKnownHosts host port key file = .ok false
  learn {file file' : File} {host : Str} {port : Nat} {key : Key} (hr : facts.readable file)
    (h : lib.learnKnownHosts host port key file = .ok file') : facts.readable file' ∧
      ∀ h p k, facts.records file' h p k ↔ facts.records file h p k ∨ (h = host ∧ p = port ∧ k = key)

/-! ## What a check comes to -/

variable {lib} {Alg : Type} {facts : KeyFacts File Key Alg} {host path : Str} {port : Nat} {onUnknown : TofuPolicy}
  {key : Key} {home file : File}

/-- Neither file says anything of the key. -/
structure Unknown (facts : KeyFacts File Key Alg) (host : Str) (port : Nat) (key : Key) (home file : File) : Prop where
  changedHome : ¬facts.Changed home host port key
  home : ¬facts.records home host port key
  changedFile : ¬facts.Changed file host port key
  file : ¬facts.records file host port key

/-- What a check of the key comes to: the verdict, and the file afterwards. -/
inductive Checked (lib : RusshKeys File Key) (facts : KeyFacts File Key Alg) (host : Str) (port : Nat)
    (onUnknown : TofuPolicy) (key : Key) (home file : File) : Except RusshError Bool × File → Prop
  | changedHome (line : Nat) (h : facts.Changed home host port key) :
      Checked lib facts host port onUnknown key home file (.error (.keyChanged line), file)
  | trustedHome (h : ¬facts.Changed home host port key) (hk : facts.records home host port key) :
      Checked lib facts host port onUnknown key home file (.ok true, file)
  | changedFile (line : Nat) (hk : ¬facts.records home host port key) (h : facts.Changed file host port key) :
      Checked lib facts host port onUnknown key home file (.error (.keyChanged line), file)
  | trustedFile (hh : ¬facts.Changed home host port key) (h : ¬facts.Changed file host port key)
      (hk : facts.records file host port key) : Checked lib facts host port onUnknown key home file (.ok true, file)
  | learned (file' : File) (hu : Unknown facts host port key home file) (hp : onUnknown = .acceptOnFirst)
      (h : lib.learnKnownHosts host port key file = .ok file') :
      Checked lib facts host port onUnknown key home file (.ok true, file')
  | notLearned (hu : Unknown facts host port key home file) (hp : onUnknown = .acceptOnFirst) :
      Checked lib facts host port onUnknown key home file (.ok true, file)
  | refused (hp : onUnknown = .rejectUnknown) :
      Checked lib facts host port onUnknown key home file (.error .unknownKey, file)

/-- **The case analysis of a check**, on what the two files say of the key. -/
theorem checked (hdoc : Documented lib facts) (hhome : facts.readable home) (hfile : facts.readable file) :
    Checked lib facts host port onUnknown key home file
      (ClientHandler.checkServerKey lib ⟨.knownHosts path onUnknown, host, port⟩ key home file) := by
  simp only [ClientHandler.checkServerKey]
  by_cases hch : facts.Changed home host port key
  · obtain ⟨line, hline⟩ := hdoc.changed hhome hch
    simp only [hline]
    exact .changedHome line hch
  by_cases hrec : facts.records home host port key
  · simp only [hdoc.known hhome hch hrec]
    exact .trustedHome hch hrec
  simp only [hdoc.unknown hhome hch hrec]
  by_cases hch' : facts.Changed file host port key
  · obtain ⟨line, hline⟩ := hdoc.changed hfile hch'
    simp only [hline]
    exact .changedFile line hrec hch'
  by_cases hrec' : facts.records file host port key
  · simp only [hdoc.known hfile hch' hrec']
    exact .trustedFile hch hch' hrec'
  simp only [hdoc.unknown hfile hch' hrec', ClientHandler.learnOrRefuse]
  have hu : Unknown facts host port key home file := ⟨hch, hrec, hch', hrec'⟩
  cases onUnknown with
  | rejectUnknown => exact .refused rfl
  | acceptOnFirst =>
    cases hl : lib.learnKnownHosts host port key file with
    | ok file' => exact .learned file' hu rfl hl
    | error e => exact .notLearned hu rfl

end Model

/-! ## Connection attempts -/

/-- A connection attempt: the key that the server presents, and the user's own file at that time. -/
structure Attempt (File Key : Type) where
  key : Key
  home : File

section Runs

variable {File Key Alg : Type} {lib : RusshKeys File Key} {facts : KeyFacts File Key Alg} {host path : Str} {port : Nat}

/-- The handler of a client that trusts on first use. -/
def tofuHandler (path host : Str) (port : Nat) : ClientHandler :=
  { policy := .knownHosts path .acceptOnFirst, host, port }

/-- One attempt: the file at the path, and the keys accepted so far. -/
def attempt (lib : RusshKeys File Key) (handler : ClientHandler) (s : File × List Key) (a : Attempt File Key) :
    Option (File × List Key) :=
  let (verdict, file) := handler.checkServerKey lib a.key a.home s.1
  some (file, if verdict = .ok true then s.2 ++ [a.key] else s.2)

/-- The attempt comes after one that accepted another key, which is on record. -/
def AfterOther (facts : KeyFacts File Key Alg) (host : Str) (port : Nat) (s : File × List Key) (key : Key) : Prop :=
  ∃ k ∈ s.2, facts.records s.1 host port k ∧ k ≠ key

/-- **Trust on first use binds**: after a key was accepted and recorded, another one is accepted only if the user's own
file records it. -/
def Binding (lib : RusshKeys File Key) (facts : KeyFacts File Key Alg) (handler : ClientHandler) (s : File × List Key)
    (a : Attempt File Key) : Prop :=
  AfterOther facts handler.host handler.port s a.key →
    (handler.checkServerKey lib a.key a.home s.1).1 = .ok true →
    facts.records a.home handler.host handler.port a.key

/-- Such a key is recorded in the user's own file, or its algorithm has another key on record in one of the files. -/
def AlgorithmKnown (facts : KeyFacts File Key Alg) (handler : ClientHandler) (s : File × List Key)
    (a : Attempt File Key) : Prop :=
  AfterOther facts handler.host handler.port s a.key →
    facts.records a.home handler.host handler.port a.key ∨
      facts.Changed a.home handler.host handler.port a.key ∨ facts.Changed s.1 handler.host handler.port a.key

/-- **When a key is accepted.** -/
theorem accepts_iff (hdoc : Documented lib facts) {key : Key} {home file : File} (hhome : facts.readable home)
    (hfile : facts.readable file) :
    ((tofuHandler path host port).checkServerKey lib key home file).1 = .ok true ↔
      ¬facts.Changed home host port key ∧ (facts.records home host port key ∨ ¬facts.Changed file host port key) := by
  have hc : Checked lib facts host port .acceptOnFirst key home file
    ((tofuHandler path host port).checkServerKey lib key home file) := checked hdoc hhome hfile
  generalize (tofuHandler path host port).checkServerKey lib key home file = q at hc ⊢
  cases hc with
  | changedHome line h => simp [h]
  | trustedHome h hk => simp [h, hk]
  | changedFile line hk h => simp [hk, h]
  | trustedFile hh h hk => simp [hh, h]
  | learned file' hu hp h => simp [hu.changedHome, hu.changedFile]
  | notLearned hu hp => simp [hu.changedHome, hu.changedFile]
  | refused hp => cases hp

theorem learnOrRefuse_file (handler : ClientHandler) (onUnknown : TofuPolicy) (key : Key) (file : File) :
    (handler.learnOrRefuse lib onUnknown key file).2 = file ∨
      lib.learnKnownHosts handler.host handler.port key file =
        .ok (handler.learnOrRefuse lib onUnknown key file).2 := by
  unfold ClientHandler.learnOrRefuse
  cases onUnknown with
  | rejectUnknown => exact .inl rfl
  | acceptOnFirst => cases lib.learnKnownHosts handler.host handler.port key file <;> simp

/-- The file is left as it is, or extended by the library. -/
theorem checkServerKey_file (handler : ClientHandler) (key : Key) (home file : File) :
    (handler.checkServerKey lib key home file).2 = file ∨
      lib.learnKnownHosts handler.host handler.port key file = .ok (handler.checkServerKey lib key home file).2 := by
  unfold ClientHandler.checkServerKey
  split
  · exact .inl rfl
  split <;> try exact .inl rfl
  all_goals split <;> first | exact .inl rfl | exact learnOrRefuse_file _ _ _ _

theorem file_attempt {handler : ClientHandler} {s s' : File × List Key} {a : Attempt File Key}
    (hs : attempt lib handler s a = some s') :
    s'.1 = s.1 ∨ lib.learnKnownHosts handler.host handler.port a.key s.1 = .ok s'.1 := by
  have hs' : s'.1 = (handler.checkServerKey lib a.key a.home s.1).2 := by cases hs; rfl
  rw [hs']
  exact checkServerKey_file handler a.key a.home s.1

/-- The file stays readable. -/
theorem readable_attempt (hdoc : Documented lib facts) {handler : ClientHandler} {s s' : File × List Key}
    {a : Attempt File Key} (hfile : facts.readable s.1) (hs : attempt lib handler s a = some s') :
    facts.readable s'.1 := by
  rcases file_attempt hs with h | h
  · exact h ▸ hfile
  · exact (hdoc.learn hfile h).1

/-- One attempt keeps the promise exactly when the key's algorithm is known. -/
theorem binding_iff_known (hdoc : Documented lib facts) {s : File × List Key} {a : Attempt File Key}
    (hfile : facts.readable s.1) (hhome : facts.readable a.home) :
    Binding lib facts (tofuHandler path host port) s a ↔ AlgorithmKnown facts (tofuHandler path host port) s a := by
  unfold Binding AlgorithmKnown
  rw [accepts_iff hdoc hhome hfile]
  simp only [tofuHandler]
  tauto

/-- A key of the algorithm of the one on record has its algorithm known. -/
theorem algorithmKnown_of_alg {handler : ClientHandler} {s : File × List Key} {a : Attempt File Key}
    (h : ∀ k ∈ s.2, facts.records s.1 handler.host handler.port k → k ≠ a.key → facts.alg k = facts.alg a.key) :
    AlgorithmKnown facts handler s a := fun ⟨k, hk, hrec, hne⟩ => .inr (.inr ⟨k, hrec, hne, h k hk hrec hne⟩)

/-- **Trust on first use binds in exactly the runs in which every key presented after another one was recorded is itself
recorded in the user's own file, or has an algorithm of which some other key is on record.** -/
theorem binding_iff (hdoc : Documented lib facts) {file : File} {l : List (Attempt File Key)}
    (hfile : facts.readable file) (hl : ∀ a ∈ l, facts.readable a.home) :
    Lts.Each (attempt lib (tofuHandler path host port)) (Binding lib facts (tofuHandler path host port)) (file, []) l ↔
      Lts.Each (attempt lib (tofuHandler path host port)) (AlgorithmKnown facts (tofuHandler path host port))
        (file, []) l :=
  Lts.each_congr (Q := fun a => facts.readable a.home) (I := fun s => facts.readable s.1)
    (fun hI _ hs => readable_attempt hdoc hI hs) (fun hI hQ => binding_iff_known hdoc hI hQ) hfile hl

end Runs

/-! ## A library over lists -/

structure HostKey where
  alg : String
  blob : List UInt8
deriving DecidableEq

/-- The content of a `known_hosts` file. -/
abbrev HostsFile := List (Str × Nat × HostKey)

/-- The documented library, on lists. -/
def listKeys : RusshKeys HostsFile HostKey where
  checkKnownHosts host port key file :=
    match file.findIdx? fun r => r.1 = host ∧ r.2.1 = port ∧ r.2.2.alg = key.alg ∧ r.2.2 ≠ key with
    | some i => .error (.keyChanged (i + 1))
    | none => .ok (file.contains (host, port, key))
  learnKnownHosts host port key file := .ok (file ++ [(host, port, key)])

def listFacts : KeyFacts HostsFile HostKey String where
  readable _ := True
  records file host port key := (host, port, key) ∈ file
  alg := HostKey.alg

theorem listKeys_changed {file : HostsFile} {host : Str} {port : Nat} {key : HostKey} :
    listFacts.Changed file host port key ↔
      ∃ r ∈ file, r.1 = host ∧ r.2.1 = port ∧ r.2.2.alg = key.alg ∧ r.2.2 ≠ key := by
  constructor
  · rintro ⟨k, hk, hne, halg⟩
    exact ⟨_, hk, rfl, rfl, halg, hne⟩
  · rintro ⟨⟨h, p, k⟩, hk, rfl, rfl, halg, hne⟩
    exact ⟨k, hk, hne, halg⟩

theorem check_of_not_changed {file : HostsFile} {host : Str} {port : Nat} {key : HostKey}
    (h : ¬listFacts.Changed file host port key) :
    listKeys.checkKnownHosts host port key file = .ok (file.contains (host, port, key)) := by
  have hnone : (file.findIdx? fun r => r.1 = host ∧ r.2.1 = port ∧ r.2.2.alg = key.alg ∧ r.2.2 ≠ key) = none := by
    rw [List.findIdx?_eq_none_iff]
    intro r hr
    by_contra hc
    exact h (listKeys_changed.2 ⟨r, hr, by simpa using hc⟩)
  simp only [listKeys, hnone]

theorem documented_list : Documented listKeys listFacts where
  changed {file host port key} _ h := by
    have hsome : (file.findIdx? fun r => r.1 = host ∧ r.2.1 = port ∧ r.2.2.alg = key.alg ∧ r.2.2 ≠ key).isSome := by
      rw [List.findIdx?_isSome, List.any_eq_true]
      simpa using listKeys_changed.1 h
    obtain ⟨i, hi⟩ := Option.isSome_iff_exists.1 hsome
    exact ⟨i + 1, by simp only [listKeys, hi]⟩
  known {file host port key} _ h hk := by
    rw [check_of_not_changed h, List.contains_iff_mem.2 hk]
  unknown {file host port key} _ h hk := by
    rw [check_of_not_changed h, Bool.eq_false_iff.2 fun hc => hk (List.contains_iff_mem.1 hc)]
  learn _ h := by
    cases h
    exact ⟨trivial, by simp [listFacts, Prod.ext_iff]⟩

/-! ## Two servers -/

/-- The key that a server of the host presents, and another one of the same algorithm. -/
def firstKey : HostKey := ⟨"ssh-ed25519", [1]⟩

def otherKey : HostKey := ⟨"ssh-ed25519", [2]⟩

/-- A key of another algorithm. -/
def rsaKey : HostKey := ⟨"ssh-rsa", [3]⟩

/-- The first attempt records its key. -/
theorem attempt_firstKey : attempt listKeys (tofuHandler ['k'] ['h'] 22) ([], []) ⟨firstKey, []⟩ =
    some ([(['h'], 22, firstKey)], [firstKey]) := by decide

theorem binding_same_algorithm : Lts.Each (attempt listKeys (tofuHandler ['k'] ['h'] 22))
    (Binding listKeys listFacts (tofuHandler ['k'] ['h'] 22)) ([], []) [⟨firstKey, []⟩, ⟨otherKey, []⟩] := by
  refine (binding_iff documented_list trivial fun _ _ => trivial).2 ⟨?_, fun s hs => ⟨?_, fun _ _ => trivial⟩⟩
  · rintro ⟨k, hk, -⟩
    cases hk
  · rw [attempt_firstKey] at hs
    cases hs
    refine algorithmKnown_of_alg fun k hk _ _ => ?_
    obtain rfl := List.mem_singleton.1 hk
    rfl

/-- A key of another algorithm is accepted after the first one was recorded. -/
theorem not_binding_other_algorithm : ¬ Lts.Each (attempt listKeys (tofuHandler ['k'] ['h'] 22))
    (Binding listKeys listFacts (tofuHandler ['k'] ['h'] 22)) ([], []) [⟨firstKey, []⟩, ⟨rsaKey, []⟩] := by
  intro h
  have hb := (h.2 _ attempt_firstKey).1
  have hrec := hb ⟨firstKey, List.mem_singleton_self _, List.mem_singleton_self _, by decide⟩ (by decide)
  cases hrec

end TinySsh
