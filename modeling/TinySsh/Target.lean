import TinySsh.Lib.Decimal

/-!
# The connection target

`parse_target` (`main.rs`) reads `user@host[:port]` from the command line.

* `parseTarget_print`: a target in one of the two forms, `host` without a colon or an address in brackets, is read back.
* `faithful_iff`: of what else is accepted, some is read for something else. An address outside of brackets loses its
  last group to the port, text behind a bracket is dropped, a host may be empty and a port may have a plus sign.
-/

namespace TinySsh

open Text

/-! ## The parser -/

inductive TargetError
  | noAt (s : Str)
  | emptyUser | unbalanced
  | invalidPort (kind : IntErrorKind)
deriving DecidableEq

def TargetError.text : TargetError → String
  | .noAt s => "target must be `user@host[:port]`, got `" ++ String.ofList s ++ "`"
  | .emptyUser => "user portion of target cannot be empty"
  | .unbalanced => "unbalanced [ in IPv6 host"
  | .invalidPort _ => "invalid port"

/-- The error below in the chain. -/
def TargetError.source : TargetError → Option String
  | .invalidPort kind => some kind.text
  | _ => none

def parsePort (s : Str) : Except TargetError Nat := (parseU16 s).mapError .invalidPort

/-- The user, the host and the port. -/
def parseTarget (s : Str) : Except TargetError (Str × Str × Option Nat) :=
  match splitOnce '@' s with
  | none => .error (.noAt s)
  | some (user, rest) =>
    if user = [] then .error .emptyUser
    else
      match rsplitOnce ':' rest with
      | some (host, portS) =>
        if rest.head? = some '[' then
          match splitOnce ']' rest with
          | none => .error .unbalanced
          | some (opening, after) =>
            let host := opening.drop 1
            match stripPrefix ':' after with
            | some p => (parsePort p).map fun port => (user, host, some port)
            | none => .ok (user, host, none)
        else (parsePort portS).map fun port => (user, host, some port)
      | none => .ok (user, rest, none)

variable {s user host rest : Str} {port : Option Nat} {n : Nat}

theorem parsePort_eq_ok : parsePort s = .ok n ↔
    ∃ ds, (s = ds ∨ s = '+' :: ds) ∧ IsDecimal ds ∧ decimalValue ds = n ∧ n < 2 ^ 16 := by
  rw [← parseU16_eq_ok, parsePort]
  cases parseU16 s <;> simp [Except.mapError]

theorem except_map_ok {ε α β : Type} {x : Except ε α} {f : α → β} {b : β} :
    x.map f = .ok b ↔ ∃ a, x = .ok a ∧ f a = b := by
  cases x <;> simp [Except.map]

/-- How the text behind the user is read as a host and a port. -/
inductive ReadAs : Str → Str → Option Nat → Prop
  | host {rest : Str} (hcolon : ':' ∉ rest) : ReadAs rest rest none
  | hostPort {host portS : Str} {n : Nat} (hbracket : (host ++ ':' :: portS).head? ≠ some '[') (hcolon : ':' ∉ portS)
      (hport : parsePort portS = .ok n) : ReadAs (host ++ ':' :: portS) host (some n)
  | address {inside after : Str} (hbracket : ']' ∉ inside) (hcolon : ':' ∈ inside ++ after)
      (hafter : after.head? ≠ some ':') : ReadAs ('[' :: (inside ++ ']' :: after)) inside none
  | addressPort {inside p : Str} {n : Nat} (hbracket : ']' ∉ inside) (hport : parsePort p = .ok n) :
      ReadAs ('[' :: (inside ++ ']' :: ':' :: p)) inside (some n)

/-- An opening bracket and the first closing one divide a text. -/
theorem splitOnce_brackets {inside after : Str} (h : ']' ∉ inside) :
    splitOnce ']' ('[' :: (inside ++ ']' :: after)) = some ('[' :: inside, after) :=
  splitOnce_append (a := '[' :: inside) (by simp [h])

theorem brackets_of_splitOnce {opening after : Str} (hhead : rest.head? = some '[')
    (h : splitOnce ']' rest = some (opening, after)) :
    ∃ inside, opening = '[' :: inside ∧ rest = '[' :: (inside ++ ']' :: after) ∧ ']' ∉ inside := by
  obtain ⟨rfl, hfirst⟩ := splitOnce_eq_some.1 h
  cases opening with
  | nil => simp at hhead
  | cons c inside =>
    obtain rfl : c = '[' := by simpa using hhead
    exact ⟨inside, rfl, rfl, fun hmem => hfirst (List.mem_cons_of_mem _ hmem)⟩

/-- The text behind the user, as the parser goes through it. -/
theorem readAs_of_ok (h : parseTarget s = .ok (user, host, port)) :
    ∃ rest, s = user ++ '@' :: rest ∧ '@' ∉ user ∧ user ≠ [] ∧ ReadAs rest host port := by
  unfold parseTarget at h
  cases hat : splitOnce '@' s with
  | none =>
    rw [hat] at h
    cases h
  | some p =>
    obtain ⟨user', rest⟩ := p
    obtain ⟨rfl, hnoAt⟩ := splitOnce_eq_some.1 hat
    simp only [hat] at h
    by_cases hempty : user' = []
    · rw [if_pos hempty] at h
      cases h
    rw [if_neg hempty] at h
    cases hcolon : rsplitOnce ':' rest with
    | none =>
      simp only [hcolon] at h
      cases h
      exact ⟨_, rfl, hnoAt, hempty, .host (rsplitOnce_eq_none.1 hcolon)⟩
    | some p =>
      obtain ⟨host', portS⟩ := p
      obtain ⟨hrest, hlast⟩ := rsplitOnce_eq_some.1 hcolon
      simp only [hcolon] at h
      by_cases hbracket : rest.head? = some '['
      · rw [if_pos hbracket] at h
        cases hclose : splitOnce ']' rest with
        | none =>
          rw [hclose] at h
          cases h
        | some p =>
          obtain ⟨opening, after⟩ := p
          obtain ⟨inside, rfl, rfl, hinside⟩ := brackets_of_splitOnce hbracket hclose
          simp only [hclose] at h
          cases hstrip : stripPrefix ':' after with
          | some p =>
            obtain rfl := stripPrefix_eq_some.1 hstrip
            rw [hstrip] at h
            obtain ⟨n, hn, heq⟩ := except_map_ok.1 h
            cases heq
            exact ⟨_, rfl, hnoAt, hempty, .addressPort hinside hn⟩
          | none =>
            rw [hstrip] at h
            cases h
            have hmem : ':' ∈ '[' :: (inside ++ ']' :: after) := hrest ▸ by simp
            exact ⟨_, rfl, hnoAt, hempty, .address hinside (by simpa using hmem) (stripPrefix_eq_none.1 hstrip)⟩
      · rw [if_neg hbracket] at h
        obtain ⟨n, hn, heq⟩ := except_map_ok.1 h
        cases heq
        rw [hrest] at hbracket ⊢
        exact ⟨_, rfl, hnoAt, hempty, .hostPort hbracket hlast hn⟩

/-- And every text that can be read is. -/
theorem ok_of_readAs (hnoAt : '@' ∉ user) (huser : user ≠ []) (h : ReadAs rest host port) :
    parseTarget (user ++ '@' :: rest) = .ok (user, host, port) := by
  unfold parseTarget
  simp only [splitOnce_append hnoAt, huser, if_false]
  cases h with
  | host hcolon => simp only [rsplitOnce_eq_none.2 hcolon]
  | hostPort hbracket hcolon hport =>
    simp only [rsplitOnce_append hcolon, hbracket, if_false, hport]
    rfl
  | @address _ after hbracket hcolon hafter =>
    cases hsplit : rsplitOnce ':' ('[' :: (host ++ ']' :: after)) with
    | none => exact absurd (by simpa using hcolon) (rsplitOnce_eq_none.1 hsplit)
    | some q =>
      simp only [List.head?_cons, if_true, splitOnce_brackets hbracket, stripPrefix_eq_none.2 hafter]
      rfl
  | @addressPort _ p n hbracket hport =>
    cases hsplit : rsplitOnce ':' ('[' :: (host ++ ']' :: ':' :: p)) with
    | none => exact absurd (by simp) (rsplitOnce_eq_none.1 hsplit)
    | some q =>
      simp only [List.head?_cons, if_true, splitOnce_brackets hbracket, stripPrefix_eq_some.2 rfl, hport]
      rfl

/-- **What is accepted, and as what.** -/
theorem parseTarget_eq_ok : parseTarget s = .ok (user, host, port) ↔
    ∃ rest, s = user ++ '@' :: rest ∧ '@' ∉ user ∧ user ≠ [] ∧ ReadAs rest host port := by
  refine ⟨readAs_of_ok, ?_⟩
  rintro ⟨rest, rfl, hnoAt, huser, h⟩
  exact ok_of_readAs hnoAt huser h

/-! ## Well-formed targets -/

/-- A target as it should be written: a host without a colon, or an address in brackets. -/
structure Target where
  user : Str
  host : Str
  bracketed : Bool
  port : Option Str
  user_ne : user ≠ []
  noAt : '@' ∉ user
  name : bracketed = false → host ≠ [] ∧ ':' ∉ host ∧ host.head? ≠ some '['
  address : bracketed = true → ':' ∈ host ∧ ']' ∉ host
  digits : ∀ ds ∈ port, IsDecimal ds ∧ decimalValue ds ≤ 65535

namespace Target

def printHost (t : Target) : Str := if t.bracketed then '[' :: (t.host ++ [']']) else t.host

def printPort (t : Target) : Str :=
  match t.port with
  | some ds => ':' :: ds
  | none => []

def print (t : Target) : Str := t.user ++ '@' :: (t.printHost ++ t.printPort)

/-- The part behind the user is read as the host and the port. -/
theorem readAs (t : Target) : ReadAs (t.printHost ++ t.printPort) t.host (t.port.map decimalValue) := by
  obtain ⟨user, host, bracketed, port, -, -, hname, haddress, hdigits⟩ := t
  have hparse : ∀ ds, port = some ds → ':' ∉ ds ∧ parsePort ds = .ok (decimalValue ds) := fun ds hds => by
    obtain ⟨hdecimal, hle⟩ := hdigits ds hds
    exact ⟨hdecimal.notMem (by decide), parsePort_eq_ok.2 ⟨ds, .inl rfl, hdecimal, rfl, by omega⟩⟩
  cases bracketed with
  | false =>
    obtain ⟨hne, hcolon, hhead⟩ := hname rfl
    cases port with
    | none => simpa [printHost, printPort] using ReadAs.host hcolon
    | some ds =>
      obtain ⟨hds, hok⟩ := hparse ds rfl
      refine ReadAs.hostPort ?_ hds hok
      cases host with
      | nil => exact absurd rfl hne
      | cons c host => exact hhead
  | true =>
    obtain ⟨hcolon, hclose⟩ := haddress rfl
    cases port with
    | none =>
      have hread := @ReadAs.address host [] hclose (by simpa using hcolon) (by simp)
      simpa [printHost, printPort] using hread
    | some ds =>
      have hread := ReadAs.addressPort hclose (hparse ds rfl).2
      simpa [printHost, printPort] using hread

end Target

/-- **A target that is written as it should be is read back.** -/
theorem parseTarget_print (t : Target) : parseTarget t.print = .ok (t.user, t.host, t.port.map decimalValue) :=
  ok_of_readAs t.noAt t.user_ne t.readAs

/-- `u@[::1]:22` -/
def Target.loopback : Target where
  user := ['u']
  host := [':', ':', '1']
  bracketed := true
  port := some ['2', '2']
  user_ne := by decide
  noAt := by decide
  name := nofun
  address _ := by decide
  digits := by
    rintro ds ⟨⟩
    exact ⟨⟨by decide, List.all_eq_true.1 rfl⟩, by decide⟩

theorem parseTarget_loopback : Target.loopback.print = ['u', '@', '[', ':', ':', '1', ']', ':', '2', '2'] ∧
    parseTarget Target.loopback.print = .ok (['u'], [':', ':', '1'], some 22) :=
  ⟨rfl, parseTarget_print .loopback⟩

/-! ## What else is accepted -/

/-- The text of a port. -/
def SpellsPort : Option Nat → Str → Prop
  | none, p => p = []
  | some n, p => ∃ ds, p = ':' :: ds ∧ IsDecimal ds ∧ decimalValue ds = n

/-- **Nothing is discarded or guessed.** -/
structure Faithful (s user host : Str) (port : Option Nat) : Prop where
  user_ne : user ≠ []
  noAt : '@' ∉ user
  host_ne : host ≠ []
  spelled : ∃ h p, s = user ++ '@' :: (h ++ p) ∧ (h = host ∧ ':' ∉ host ∨ h = '[' :: (host ++ [']'])) ∧
    SpellsPort port p

/-- A text behind the user that leaves no doubt: there is a host. Outside of brackets, no colon is before the last one;
brackets are not empty, and nothing or a colon is behind them. A port has no sign. -/
structure Clear (rest : Str) : Prop where
  rest_ne : rest ≠ []
  outside : ∀ host portS, rest = host ++ ':' :: portS → ':' ∉ portS → rest.head? ≠ some '[' →
    host ≠ [] ∧ ':' ∉ host ∧ portS.head? ≠ some '+'
  brackets : ∀ inside after, rest = '[' :: (inside ++ ']' :: after) → ']' ∉ inside → ':' ∈ rest →
    inside ≠ [] ∧ (after = [] ∨ ∃ p, after = ':' :: p ∧ p.head? ≠ some '+')

/-- A text that is shifted by one character differs before its end. -/
theorem cons_ne_append {a x y : Str} {c d : Char} (hcd : c ≠ d) (ha : d ∉ a) : c :: (a ++ x) ≠ a ++ d :: y := by
  induction a generalizing c with
  | nil => exact fun h => hcd (List.cons.inj h).1
  | cons e a ih =>
    rw [List.mem_cons, not_or] at ha
    intro h
    obtain ⟨rfl, h⟩ := List.cons.inj h
    exact ih (Ne.symm ha.1) ha.2 h

/-- A port that is parsed is written in digits, unless it begins with a plus sign. -/
theorem isDecimal_of_parsePort {portS : Str} (h : parsePort portS = .ok n) :
    portS.head? ≠ some '+' ↔ IsDecimal portS ∧ decimalValue portS = n := by
  obtain ⟨ds, rfl | rfl, hds, hvalue, -⟩ := parsePort_eq_ok.1 h
  · refine iff_of_true (fun hplus => ?_) ⟨hds, hvalue⟩
    obtain ⟨t, rfl⟩ := List.head?_eq_some_iff.1 hplus
    exact not_isDecimal_plus hds
  · exact iff_of_false (by simp) fun hplus => not_isDecimal_plus hplus.1

/-- The part of the text that is read decides. -/
theorem faithful_iff_spelled (huser : user ≠ []) (hnoAt : '@' ∉ user) :
    Faithful (user ++ '@' :: rest) user host port ↔ host ≠ [] ∧ ∃ h p, rest = h ++ p ∧
      (h = host ∧ ':' ∉ host ∨ h = '[' :: (host ++ [']'])) ∧ SpellsPort port p := by
  constructor
  · rintro ⟨-, -, hhost, h, p, hs, hspelled⟩
    exact ⟨hhost, h, p, (List.cons.inj (List.append_cancel_left hs)).2, hspelled⟩
  · rintro ⟨hhost, h, p, rfl, hspelled⟩
    exact ⟨huser, hnoAt, hhost, h, p, rfl, hspelled⟩

theorem clear_of_spelled (h : ReadAs rest host port) (hhost : host ≠ []) {a p : Str} (hrest : rest = a ++ p)
    (ha : a = host ∧ ':' ∉ host ∨ a = '[' :: (host ++ [']'])) (hp : SpellsPort port p) : Clear rest := by
  have hshort : ∀ x, host ≠ '[' :: (host ++ x) := fun x heq => by
    have hlen := congrArg List.length heq
    simp only [List.length_cons, List.length_append] at hlen
    omega
  cases h with
  | host hcolon =>
    refine ⟨hhost, fun x y hxy => ?_, fun _ _ _ _ hmem => absurd hmem hcolon⟩
    exact absurd (hxy ▸ by simp) hcolon
  | @hostPort _ portS n hbracket hcolon hport =>
    obtain ⟨ds, rfl, hds, hvalue⟩ := hp
    obtain ⟨rfl, rfl⟩ := rsplitOnce_unique hrest hcolon (hds.notMem (by decide))
    have hnoColon : ':' ∉ host := by
      rcases ha with ⟨-, ha⟩ | ha
      · exact ha
      · exact absurd ha (hshort _)
    refine ⟨by simp, fun x y hxy hy _ => ?_, fun _ _ heq => absurd (by rw [heq]; rfl) hbracket⟩
    obtain ⟨rfl, rfl⟩ := rsplitOnce_unique hxy hcolon hy
    exact ⟨hhost, hnoColon, (isDecimal_of_parsePort hport).2 ⟨hds, hvalue⟩⟩
  | @address _ after hbracket hcolon hafter =>
    obtain rfl : p = [] := hp
    rw [List.append_nil] at hrest
    obtain rfl : after = [] := by
      rcases ha with ⟨rfl, -⟩ | rfl
      · exact absurd hrest.symm (hshort _)
      · simpa using hrest
    refine ⟨by simp, fun _ _ _ _ hhead => absurd rfl hhead, fun inside after heq hinside _ => ?_⟩
    obtain ⟨rfl, rfl⟩ := splitOnce_unique (List.cons.inj heq).2 hbracket hinside
    exact ⟨hhost, .inl rfl⟩
  | @addressPort _ q n hbracket hport =>
    obtain ⟨ds, rfl, hds, hvalue⟩ := hp
    obtain rfl : q = ds := by
      rcases ha with ⟨rfl, hnoColon⟩ | rfl
      · exact absurd hrest (cons_ne_append (by decide) hnoColon)
      · simpa using hrest
    refine ⟨by simp, fun _ _ _ _ hhead => absurd rfl hhead, fun inside after heq hinside _ => ?_⟩
    obtain ⟨rfl, rfl⟩ := splitOnce_unique (List.cons.inj heq).2 hbracket hinside
    exact ⟨hhost, .inr ⟨q, rfl, (isDecimal_of_parsePort hport).2 ⟨hds, hvalue⟩⟩⟩

theorem spelled_of_clear (h : ReadAs rest host port) (hclear : Clear rest) : host ≠ [] ∧ ∃ h p, rest = h ++ p ∧
    (h = host ∧ ':' ∉ host ∨ h = '[' :: (host ++ [']'])) ∧ SpellsPort port p := by
  cases h with
  | host hcolon => exact ⟨hclear.rest_ne, host, [], by simp, .inl ⟨rfl, hcolon⟩, rfl⟩
  | @hostPort _ portS n hbracket hcolon hport =>
    obtain ⟨hne, hnoColon, hplus⟩ := hclear.outside host portS rfl hcolon hbracket
    exact ⟨hne, host, _, rfl, .inl ⟨rfl, hnoColon⟩, portS, rfl, (isDecimal_of_parsePort hport).1 hplus⟩
  | @address _ after hbracket hcolon hafter =>
    obtain ⟨hne, rfl | ⟨p, rfl, -⟩⟩ := hclear.brackets host after rfl hbracket (by simpa using hcolon)
    · exact ⟨hne, _, [], (List.append_nil _).symm, .inr rfl, rfl⟩
    · exact absurd rfl hafter
  | @addressPort _ q n hbracket hport =>
    obtain ⟨hne, hcon | ⟨p, heq, hplus⟩⟩ := hclear.brackets host _ rfl hbracket (by simp)
    · cases hcon
    · cases heq
      exact ⟨hne, '[' :: (host ++ [']']), ':' :: q, by simp, .inr rfl, q, rfl, (isDecimal_of_parsePort hport).1 hplus⟩

/-- **What is accepted is read faithfully exactly when the text behind the user leaves no doubt.** -/
theorem faithful_iff (h : parseTarget s = .ok (user, host, port)) :
    Faithful s user host port ↔ ∀ u rest, s = u ++ '@' :: rest → '@' ∉ u → Clear rest := by
  obtain ⟨rest, rfl, hnoAt, huser, hread⟩ := parseTarget_eq_ok.1 h
  rw [faithful_iff_spelled huser hnoAt]
  constructor
  · rintro ⟨hhost, a, p, hrest, ha, hp⟩ u rest' hs hu
    obtain ⟨-, rfl⟩ := splitOnce_unique hs hnoAt hu
    exact clear_of_spelled hread hhost hrest ha hp
  · intro hclear
    exact spelled_of_clear hread (hclear user rest rfl hnoAt)

theorem faithful_iff_loopback : Faithful ['u', '@', '[', ':', ':', '1', ']', ':', '2'] ['u'] [':', ':', '1'] (some 2) ↔
    ∀ u rest, ['u', '@', '[', ':', ':', '1', ']', ':', '2'] = u ++ '@' :: rest → '@' ∉ u → Clear rest :=
  faithful_iff rfl

/-- The address `::1` is read as the host `:` and the port 1. -/
theorem address_split : ¬ ∀ s user host port, parseTarget s = .ok (user, host, port) → Faithful s user host port := by
  intro h
  obtain ⟨-, -, -, a, p, hs, ha, -⟩ := h ['u', '@', ':', ':', '1'] ['u'] [':'] (some 1) rfl
  rcases ha with ⟨-, ha⟩ | rfl
  · exact ha (by simp)
  · simp at hs

end TinySsh
