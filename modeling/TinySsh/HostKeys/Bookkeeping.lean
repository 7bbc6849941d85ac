import TinySsh.HostKeys
import Mathlib.Logic.Function.Basic

/-!
# The bookkeeping of host keys

Connection attempts to any hosts and ports, under either policy for unknown hosts, share the file at the policy's path
and read the user's own file. The files lie on a disk, of which an attempt replaces the one at the path.

* `safe_connect`, `unique_connect`: what one attempt may do, from what the two files say of the presented key.
* `bookkeeping`: hence nothing but that file changes, it grows by the keys trusted on first contact and no others, no
  changed key is accepted, and a file that starts empty holds one key for each host, port and algorithm.
-/

namespace TinySsh

open Text

/-! ## The model -/

/-- The contents of the files, by path. -/
abbrev Disk (File : Type) := Str → File

/-- A connection attempt: where to, the key that the server presents there, and what to do if it is unknown. -/
structure Connection (Key : Type) where
  host : Str
  port : Nat
  key : Key
  onUnknown : TofuPolicy

/-- The handler of an attempt. -/
def Connection.handler {Key : Type} (c : Connection Key) (path : Str) : ClientHandler :=
  { policy := .knownHosts path c.onUnknown, host := c.host, port := c.port }

section Model

variable {File Key : Type} (lib : RusshKeys File Key) (home path : Str)

/-- The verdict of an attempt, and the file at the path afterwards; `home` is `~/.ssh/known_hosts`. -/
def Connection.check (c : Connection Key) (disk : Disk File) : Except RusshError Bool × File :=
  (c.handler path).checkServerKey lib c.key (disk home) (disk path)

def Connection.accepted (c : Connection Key) (disk : Disk File) : Prop := (c.check lib home path disk).1 = .ok true

/-- One attempt. -/
def connect (disk : Disk File) (c : Connection Key) : Option (Disk File) :=
  some (Function.update disk path (c.check lib home path disk).2)

/-! ## What is relied on, and what is promised -/

/-- **The library sees a file as entries**: a file records what some entry names, and learning appends an entry. -/
structure Entries {Alg Entry : Type} (facts : KeyFacts File Key Alg) (entries : File → List Entry)
    (names : Entry → Str → Nat → Key → Prop) : Prop where
  records {file : File} {host : Str} {port : Nat} {key : Key} :
    facts.records file host port key ↔ ∃ e ∈ entries file, names e host port key
  learn {file file' : File} {host : Str} {port : Nat} {key : Key} (hr : facts.readable file)
    (h : lib.learnKnownHosts host port key file = .ok file') : ∃ e, entries file' = entries file ++ [e] ∧
      ∀ h p k, names e h p k ↔ h = host ∧ p = port ∧ k = key

/-- The file holds at most one key for each host, port and algorithm. -/
def KeyFacts.Unique {Alg : Type} (facts : KeyFacts File Key Alg) (file : File) : Prop := ∀ host port k k',
  facts.records file host port k → facts.records file host port k' → facts.alg k = facts.alg k' → k = k'

/-- Both files can be read. -/
def Readable {Alg : Type} (facts : KeyFacts File Key Alg) (home path : Str) (disk : Disk File) : Prop :=
  facts.readable (disk home) ∧ facts.readable (disk path)

/-- What a run has done to the disk: the file at the path grew by appending, at most once an attempt, and no other file
changed, `~/.ssh/known_hosts` among them. -/
structure Grown {Entry : Type} (entries : File → List Entry) (path : Str) (disk : Disk File) (l : List (Connection Key))
    (disk' : Disk File) : Prop where
  other : ∀ q, q ≠ path → disk' q = disk q
  file : ∃ es, entries (disk' path) = entries (disk path) ++ es ∧ es.length ≤ l.length

/-- What an attempt may do. -/
structure Safe {Alg Entry : Type} (facts : KeyFacts File Key Alg) (entries : File → List Entry)
    (names : Entry → Str → Nat → Key → Prop) (disk : Disk File) (c : Connection Key) : Prop where
  /-- The file stays as it is, or grows by the presented key, which is accepted on first contact. -/
  grows : (c.check lib home path disk).2 = disk path ∨
    c.accepted lib home path disk ∧ c.onUnknown = .acceptOnFirst ∧
      ∃ e, entries (c.check lib home path disk).2 = entries (disk path) ++ [e] ∧
        ∀ h p k, names e h p k ↔ h = c.host ∧ p = c.port ∧ k = c.key
  reject : c.onUnknown = .rejectUnknown → (c.check lib home path disk).2 = disk path ∧
    (c.accepted lib home path disk →
      facts.records (disk home) c.host c.port c.key ∨ facts.records (disk path) c.host c.port c.key)
  changedHome : facts.Changed (disk home) c.host c.port c.key → ¬c.accepted lib home path disk
  changedPath : facts.Changed (disk path) c.host c.port c.key → ¬facts.records (disk home) c.host c.port c.key →
    ¬c.accepted lib home path disk

end Model

section Runs

variable {File Key Alg Entry : Type} {lib : RusshKeys File Key} {facts : KeyFacts File Key Alg}
  {entries : File → List Entry} {names : Entry → Str → Nat → Key → Prop} {home path : Str} {disk disk' : Disk File}
  {c : Connection Key} {l : List (Connection Key)}

/-! ## One attempt -/

/-- What an attempt comes to, by what the two files say of the presented key. -/
theorem checked_connect (hdoc : Documented lib facts) (hread : Readable facts home path disk) :
    Checked lib facts c.host c.port c.onUnknown c.key (disk home) (disk path) (c.check lib home path disk) :=
  checked hdoc hread.1 hread.2

/-- An attempt that is refused leaves the file as it is. -/
theorem safe_of_refused {e : RusshError} (hq : c.check lib home path disk = (.error e, disk path)) :
    Safe lib home path facts entries names disk c := by
  have hno : ¬c.accepted lib home path disk := by rw [Connection.accepted, hq]; exact fun h => nomatch h
  exact ⟨.inl (congrArg Prod.snd hq), fun _ => ⟨congrArg Prod.snd hq, fun h => absurd h hno⟩, fun _ => hno,
    fun _ _ => hno⟩

/-- **One attempt is safe.** -/
theorem safe_connect (hdoc : Documented lib facts) (hent : Entries lib facts entries names)
    (hread : Readable facts home path disk) : Safe lib home path facts entries names disk c := by
  have hc := checked_connect (c := c) hdoc hread
  generalize hq : c.check lib home path disk = q at hc
  have hsame : q.2 = disk path → (c.check lib home path disk).2 = disk path := fun h => hq ▸ h
  cases hc with
  | changedHome line h => exact safe_of_refused hq
  | changedFile line hk h => exact safe_of_refused hq
  | refused hp => exact safe_of_refused hq
  | trustedHome h hk =>
    exact ⟨.inl (hsame rfl), fun _ => ⟨hsame rfl, fun _ => .inl hk⟩, fun hch => absurd hch h,
      fun _ hno => absurd hk hno⟩
  | trustedFile hh h hk =>
    exact ⟨.inl (hsame rfl), fun _ => ⟨hsame rfl, fun _ => .inr hk⟩, fun hch => absurd hch hh, fun hch => absurd hch h⟩
  | learned file hu hp hl =>
    obtain ⟨e, he, hnames⟩ := hent.learn hread.2 hl
    have hacc : c.accepted lib home path disk := congrArg Prod.fst hq
    refine ⟨.inr ⟨hacc, hp, e, hq ▸ he, hnames⟩, fun hrej => ?_, fun hch => absurd hch hu.changedHome,
      fun hch => absurd hch hu.changedFile⟩
    rw [hp] at hrej
    cases hrej
  | notLearned hu hp =>
    refine ⟨.inl (hsame rfl), fun hrej => ?_, fun hch => absurd hch hu.changedHome,
      fun hch => absurd hch hu.changedFile⟩
    rw [hp] at hrej
    cases hrej

theorem connect_path (hs : connect lib home path disk c = some disk') :
    disk' path = (c.check lib home path disk).2 ∧ ∀ q, q ≠ path → disk' q = disk q := by
  cases hs
  exact ⟨Function.update_self _ _ _, fun q hq => Function.update_of_ne hq _ _⟩

/-- Both files stay readable, also when they are one. -/
theorem readable_connect (hdoc : Documented lib facts) (hread : Readable facts home path disk)
    (hs : connect lib home path disk c = some disk') : Readable facts home path disk' := by
  obtain ⟨hhome, hpath⟩ := hread
  obtain ⟨hfile, hother⟩ := connect_path hs
  have hpath' : facts.readable (disk' path) := by
    rw [hfile]
    rcases checkServerKey_file (c.handler path) c.key (disk home) (disk path) with h | h
    · exact h ▸ hpath
    · exact (hdoc.learn hpath h).1
  refine ⟨?_, hpath'⟩
  by_cases hq : home = path
  · exact hq ▸ hpath'
  · rw [hother home hq]
    exact hhome

/-- **One attempt keeps the keys unique**: a key is learned only where its algorithm has none. -/
theorem unique_connect (hdoc : Documented lib facts) (hread : Readable facts home path disk)
    (hu : facts.Unique (disk path)) (hs : connect lib home path disk c = some disk') : facts.Unique (disk' path) := by
  rw [(connect_path hs).1]
  have hc := checked_connect (c := c) hdoc hread
  generalize c.check lib home path disk = q at hc
  cases hc with
  | learned file hunk hp hl =>
    have hrec := (hdoc.learn hread.2 hl).2
    -- no key of the algorithm was on record
    have hnew : ∀ k, facts.records (disk path) c.host c.port k → facts.alg k ≠ facts.alg c.key := fun k hk halg => by
      by_cases hkey : k = c.key
      · exact hunk.file (hkey ▸ hk)
      · exact hunk.changedFile ⟨k, hk, hkey, halg⟩
    intro host port k k' hk hk' halg
    rcases (hrec _ _ _).1 hk with hk | ⟨rfl, rfl, rfl⟩ <;> rcases (hrec _ _ _).1 hk' with hk' | ⟨hh, hp, rfl⟩
    · exact hu host port k k' hk hk' halg
    · exact absurd halg (hnew k (hh ▸ hp ▸ hk))
    · exact absurd halg.symm (hnew k' hk')
    · rfl
  | _ => exact hu

/-! ## Runs -/

theorem run_grown (hdoc : Documented lib facts) (hent : Entries lib facts entries names)
    (hread : Readable facts home path disk) (h : Lts.run (connect lib home path) disk l = some disk') :
    Grown entries path disk l disk' := by
  have hI := Lts.run_trace (Q := fun _ => True)
    (I := fun l d => Readable facts home path d ∧ Grown entries path disk l d)
    (fun {l d c d'} hI _ (hs : connect lib home path d c = some d') => ?_)
    ⟨hread, fun _ _ => rfl, [], (List.append_nil _).symm, Nat.le_refl _⟩ (fun _ _ => trivial) h
  · exact hI.2
  · obtain ⟨hread, hsame, es, hes, hlen⟩ := hI
    obtain ⟨hfile, hother⟩ := connect_path hs
    refine ⟨readable_connect hdoc hread hs, fun q hq => (hother q hq).trans (hsame q hq), ?_⟩
    rw [hfile, List.length_append]
    rcases (safe_connect (c := c) hdoc hent hread).grows with hg | ⟨-, -, e, he, -⟩
    · exact ⟨es, hg ▸ hes, Nat.le_succ_of_le hlen⟩
    · exact ⟨es ++ [e], by rw [he, hes, List.append_assoc], by simpa using hlen⟩

/-- **The bookkeeping is safe along every run**: the file at the path only grows and no other file changes, every
attempt is safe, and the keys of a file that starts empty are unique in every state. -/
theorem bookkeeping (hdoc : Documented lib facts) (hent : Entries lib facts entries names)
    (hhome : facts.readable (disk home)) (hpath : facts.readable (disk path))
    (h : Lts.run (connect lib home path) disk l = some disk') :
    Grown entries path disk l disk' ∧
      Lts.Each (connect lib home path) (Safe lib home path facts entries names) disk l ∧
      (entries (disk path) = [] → Lts.Always (connect lib home path) (fun d => facts.Unique (d path)) disk l) := by
  have hread : Readable facts home path disk := ⟨hhome, hpath⟩
  refine ⟨run_grown hdoc hent hread h, ?_, fun hnil => ?_⟩
  · exact Lts.each_of_inv (I := Readable facts home path) (fun hI hs => readable_connect hdoc hI hs)
      (fun hI => safe_connect hdoc hent hI) hread
  · have hnone : facts.Unique (disk path) := fun host port k k' hk => by
      obtain ⟨e, he, -⟩ := hent.records.1 hk
      rw [hnil] at he
      cases he
    exact Lts.Always.imp And.right (Lts.always_of_inv
      (I := fun d => Readable facts home path d ∧ facts.Unique (d path))
      (fun hI hs => ⟨readable_connect hdoc hI.1 hs, unique_connect hdoc hI.1 hI.2 hs⟩) ⟨hread, hnone⟩)

end Runs

/-! ## A run -/

theorem entries_list : Entries listKeys listFacts id fun e host port key => e = (host, port, key) where
  records := ⟨fun h => ⟨_, h, rfl⟩, fun ⟨_, he, h⟩ => by cases h; exact he⟩
  learn _ h := by
    cases h
    exact ⟨_, rfl, fun h p k => by simp [Prod.ext_iff, eq_comm]⟩

/-- A first contact, a changed key of the same host, a key of another algorithm, the first key again, and a host that
the user's own file knows, under both policies. -/
def meetings : List (Connection HostKey) :=
  [⟨['h'], 22, firstKey, .acceptOnFirst⟩, ⟨['h'], 22, otherKey, .acceptOnFirst⟩, ⟨['h'], 22, rsaKey, .acceptOnFirst⟩,
    ⟨['h'], 22, firstKey, .rejectUnknown⟩, ⟨['g'], 22, otherKey, .rejectUnknown⟩,
    ⟨['g'], 22, firstKey, .acceptOnFirst⟩]

/-- The user's own file knows a host. -/
def ownDisk : Disk HostsFile := fun q => if q = ['s'] then [(['g'], 22, otherKey)] else []

theorem bookkeeping_meetings : ∃ disk, Lts.run (connect listKeys ['s'] ['k']) ownDisk meetings = some disk ∧
    disk ['s'] = ownDisk ['s'] ∧ disk ['k'] = [(['h'], 22, firstKey), (['h'], 22, rsaKey)] ∧
    Lts.Each (connect listKeys ['s'] ['k'])
      (Safe listKeys ['s'] ['k'] listFacts id fun e host port key => e = (host, port, key)) ownDisk meetings ∧
    Lts.Always (connect listKeys ['s'] ['k']) (fun d => listFacts.Unique (d ['k'])) ownDisk meetings := by
  obtain ⟨disk, h⟩ : ∃ disk, Lts.run (connect listKeys ['s'] ['k']) ownDisk meetings = some disk := ⟨_, rfl⟩
  obtain ⟨hgrown, hsafe, hunique⟩ := bookkeeping documented_list entries_list trivial trivial h
  refine ⟨disk, h, hgrown.other _ (by decide), ?_, hsafe, hunique rfl⟩
  have hpath : (Lts.run (connect listKeys ['s'] ['k']) ownDisk meetings).map (fun d => d ['k']) =
    some [(['h'], 22, firstKey), (['h'], 22, rsaKey)] := by decide +kernel
  rw [h] at hpath
  exact Option.some.inj hpath

end TinySsh
