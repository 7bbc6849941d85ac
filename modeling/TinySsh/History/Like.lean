import TinySsh.History

/-!
# LIKE as a relation

What SQL says of `LIKE` with `ESCAPE '\'` (`Likes`), beside the matcher that the queries use (`like_iff_likes`). Under
it a pattern made by `like_escape` has no special character left but the `%` at its end (`like_likeEscape`).
-/

namespace TinySsh

open Text

/-- The characters that mean more than themselves in a pattern. -/
def IsSpecial (c : Char) : Prop := c = '\\' ∨ c = '%' ∨ c = '_'

/-- The text is like the pattern. ASCII letters compare without case, and an escape character at the end of a pattern
is like nothing. -/
inductive Likes : Str → Str → Prop
  | nil : Likes [] []
  | any {p t : Str} (skipped : Str) (h : Likes p t) : Likes ('%' :: p) (skipped ++ t)
  | one {p t : Str} (c : Char) (h : Likes p t) : Likes ('_' :: p) (c :: t)
  | escaped {a c : Char} {p t : Str} (hc : a.toLower = c.toLower) (h : Likes p t) : Likes ('\\' :: a :: p) (c :: t)
  | plain {a c : Char} {p t : Str} (ha : ¬ IsSpecial a) (hc : a.toLower = c.toLower) (h : Likes p t) :
      Likes (a :: p) (c :: t)

/-! ## The matcher -/

variable {a : Char} {p t : Str} {tokens : List LikeToken}

theorem likeTokens_plain (ha : ¬ IsSpecial a) (p : Str) : likeTokens (a :: p) = .lit a :: likeTokens p := by
  simp only [IsSpecial, not_or] at ha
  rw [likeTokens] <;> simp [ha]

theorem likeMatch_any : likeMatch (.any :: tokens) t = true ↔ ∃ skipped s, t = skipped ++ s ∧
    likeMatch tokens s = true := by
  simp only [likeMatch, List.any_eq_true, List.mem_tails]
  constructor
  · rintro ⟨s, ⟨skipped, rfl⟩, hs⟩
    exact ⟨skipped, s, rfl, hs⟩
  · rintro ⟨skipped, s, rfl, hs⟩
    exact ⟨s, List.suffix_append _ _, hs⟩

theorem likeMatch_one : likeMatch (.one :: tokens) t = true ↔ ∃ c s, t = c :: s ∧ likeMatch tokens s = true := by
  cases t <;> simp [likeMatch]

theorem likeMatch_lit : likeMatch (.lit a :: tokens) t = true ↔
    ∃ c s, t = c :: s ∧ a.toLower = c.toLower ∧ likeMatch tokens s = true := by
  cases t <;> simp [likeMatch]

/-- What is like a pattern is matched by its tokens. -/
theorem Likes.like (h : Likes p t) : like p t = true := by
  unfold TinySsh.like
  induction h with
  | nil => rfl
  | any skipped _ ih => exact likeMatch_any.2 ⟨skipped, _, rfl, ih⟩
  | one c _ ih => exact likeMatch_one.2 ⟨c, _, rfl, ih⟩
  | escaped hc _ ih => exact likeMatch_lit.2 ⟨_, _, rfl, hc, ih⟩
  | plain ha hc _ ih =>
    rw [likeTokens_plain ha]
    exact likeMatch_lit.2 ⟨_, _, rfl, hc, ih⟩

/-- And the other way round, token by token. -/
theorem likes_of_like (h : like p t = true) : Likes p t := by
  unfold like at h
  induction p using likeTokens.induct generalizing t with
  | case1 =>
    obtain rfl : t = [] := List.isEmpty_iff.1 h
    exact .nil
  | case2 a p ih =>
    obtain ⟨c, s, rfl, hc, hs⟩ := likeMatch_lit.1 h
    exact .escaped hc (ih hs)
  | case3 => simp [likeTokens, likeMatch] at h
  | case4 p ih =>
    obtain ⟨skipped, s, rfl, hs⟩ := likeMatch_any.1 h
    exact .any skipped (ih hs)
  | case5 p ih =>
    obtain ⟨c, s, rfl, hs⟩ := likeMatch_one.1 h
    exact .one c (ih hs)
  | case6 a p hescape hdangling hany hone ih =>
    have ha : ¬ IsSpecial a := by
      rintro (rfl | rfl | rfl)
      · cases p with
        | nil => exact hdangling rfl rfl
        | cons b p => exact hescape b p rfl rfl
      · exact hany rfl
      · exact hone rfl
    rw [likeTokens_plain ha] at h
    obtain ⟨c, s, rfl, hc, hs⟩ := likeMatch_lit.1 h
    exact .plain ha hc (ih hs)

/-- **The matcher decides the relation.** -/
theorem like_iff_likes : like p t = true ↔ Likes p t := ⟨likes_of_like, Likes.like⟩

/-! ## Escaped patterns -/

/-- **An escaped text and `%` are like what begins with the text, up to the case of ASCII letters**: each of its
characters is one literal, and the only wildcard is the `%` at the end. -/
theorem like_likeEscape (p c : Str) :
    (Likes (likeEscape p ++ ['%']) c ↔ (c.take p.length).map Char.toLower = p.map Char.toLower) ∧
      (like (likeEscape p ++ ['%']) c = true ↔ (c.take p.length).map Char.toLower = p.map Char.toLower) ∧
      likeTokens (likeEscape p ++ ['%']) = p.map LikeToken.lit ++ [.any] := by
  have hmatch : like (likeEscape p ++ ['%']) c = true ↔ (c.take p.length).map Char.toLower = p.map Char.toLower := by
    rw [like_escape, List.prefix_iff_eq_take, List.length_map, List.map_take]
    exact eq_comm
  exact ⟨like_iff_likes.symm.trans hmatch, hmatch, likeTokens_escape p⟩

end TinySsh
