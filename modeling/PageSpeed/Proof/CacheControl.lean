import PageSpeed.Spec.HtmlCachePolicy
import PageSpeed.Wire.Find
import PageSpeed.Wire.Split

/-!
# Cache-Control and Vary as sets

The rules read the lines of Cache-Control and of Vary one after the other. What they keep of them
does not depend on the order: a union of flags, lists of tokens, and lifetimes that count only if
there is one.

* `accumulate_eq`: the flags, and the last lifetimes, of the tokens of all lines.
* `countDirective_eq`: the counts are the counts of these lifetimes.
* `nonEmptyTokens_join`: the members of a joined list are those of its lines.
-/

namespace PageSpeed.Cache

open Wire List

/-! ## Optional whitespace -/

variable {c : UInt8}

theorem dropWhile_stop {p : UInt8 → Bool} (hc : p c = false) (a b : Bytes) :
    (a ++ c :: b).dropWhile p = a.dropWhile p ++ c :: b := by
  rw [dropWhile_append]
  split_ifs with h
  · rw [isEmpty_iff.1 h, dropWhile_cons_of_neg (by simp [hc])]
    rfl
  · rfl

/-- What is no whitespace keeps what is on its other side. -/
theorem trimOws_stop (hc : isOws c = false) (a b : Bytes) :
    trimOws (a ++ c :: b) = a.dropWhile isOws ++ c :: (b.reverse.dropWhile isOws).reverse := by
  rw [trimOws, dropWhile_stop hc, reverse_append, reverse_cons, append_assoc, singleton_append,
    dropWhile_stop hc]
  simp

theorem trimOws_dropWhile (s : Bytes) : trimOws (s.dropWhile isOws) = trimOws s := by
  induction s with
  | nil => rfl
  | cons c s ih =>
    by_cases hc : isOws c
    · rw [dropWhile_cons_of_pos hc, ih, trimOws, trimOws, dropWhile_cons_of_pos hc]
    · rw [dropWhile_cons_of_neg hc]

theorem trimOws_cons (hc : isOws c) (s : Bytes) : trimOws (c :: s) = trimOws s := by
  rw [trimOws, dropWhile_cons_of_pos hc, trimOws]

theorem trimOws_subset (s : Bytes) : trimOws s ⊆ s := fun _ hc =>
  (dropWhile_sublist _).subset (mem_reverse.1 ((dropWhile_sublist _).subset (mem_reverse.1 hc)))

/-! ## Directives -/

variable (token : Bytes)

/-- The name of a directive, as the counters read it. -/
def directiveName : Bytes := trimOws (token.takeWhile (· ≠ ch '='))

/-- The parser trims a token first, and the counters only the name: it is the same name. -/
theorem directiveName_trimOws :
    (if ch '=' ∈ trimOws token then trimOws ((trimOws token).takeWhile (· ≠ ch '='))
      else trimOws token) = directiveName token := by
  by_cases heq : ch '=' ∈ token
  · obtain ⟨a, b, rfl, ha⟩ := eq_append_cons_of_mem heq
    have ha' : ch '=' ∉ a.dropWhile isOws := fun h => ha ((dropWhile_sublist _).subset h)
    rw [trimOws_stop (by decide), if_pos (by simp), takeWhile_until ha', trimOws_dropWhile,
      directiveName, takeWhile_until ha]
  · rw [if_neg fun h => heq (trimOws_subset token h), directiveName, takeWhile_ne_of_not_mem heq]

/-- The value of a directive, as the parser reads it. -/
def directiveValue : Bytes :=
  if ch '=' ∈ trimOws token then ((trimOws token).dropWhile (· ≠ ch '=')).tail else []

/-- What a token does to the flags. -/
def tokenFlags : UInt16 :=
  match kCCDirectives.find? (asciiEqualsIgnoreCase (directiveName token) ·.1) with
  | some d => d.2 ||| formFlag d.2 (ch '=' ∈ trimOws token)
  | none =>
    if asciiEqualsIgnoreCase (directiveName token) (lit "s-maxage") then
      kCCOriginSMaxagePresent else 0

/-- The lifetime that a token gives under a name. -/
def lifetimeOf (name token : Bytes) : Option ℕ :=
  if asciiEqualsIgnoreCase (directiveName token) name then
    some (parseCacheControlSeconds (directiveValue token)) else none

/-- The names of lifetimes are not in the table, nor equal. -/
theorem find?_of_lifetime {name : Bytes}
    (h : asciiEqualsIgnoreCase name (lit "max-age") ∨ asciiEqualsIgnoreCase name (lit "s-maxage")) :
    kCCDirectives.find? (asciiEqualsIgnoreCase name ·.1) = none := by
  have htable : ∀ d ∈ kCCDirectives, asciiLower d.1 ≠ asciiLower (lit "max-age") ∧
      asciiLower d.1 ≠ asciiLower (lit "s-maxage") := by
    decide +kernel
  refine find?_eq_none.2 fun d hd heq => ?_
  have hlower : asciiLower name = asciiLower d.1 := of_decide_eq_true heq
  rcases h with h | h
  · exact (htable d hd).1 (hlower.symm.trans (of_decide_eq_true h))
  · exact (htable d hd).2 (hlower.symm.trans (of_decide_eq_true h))

/-- A directive of another name gives no lifetime. -/
theorem lifetimeOf_none {name token : Bytes}
    (h : asciiEqualsIgnoreCase (directiveName token) name = false) :
    lifetimeOf name token = none := by
  rw [lifetimeOf, h]
  rfl

variable (out : OriginCacheControl)

/-- A token adds its flags, and replaces a lifetime by its own. -/
theorem accumulateToken_eq : accumulateToken out token =
    { ccFlags := out.ccFlags ||| tokenFlags token
      maxAge := (lifetimeOf (lit "max-age") token).getD out.maxAge
      sMaxage := (lifetimeOf (lit "s-maxage") token).getD out.sMaxage } := by
  have hname := directiveName_trimOws token
  unfold accumulateToken
  simp only [hname]
  by_cases hempty : trimOws token = []
  · -- no name: none of the tables has it
    have hnone : directiveName token = [] := by simpa [hempty] using hname.symm
    have hflags : tokenFlags token = 0 := by
      rw [tokenFlags, hnone, hempty]
      decide
    rw [if_pos hempty, hflags, lifetimeOf_none (by rw [hnone]; decide),
      lifetimeOf_none (by rw [hnone]; decide), UInt16.or_zero]
    rfl
  · -- a directive with a flag is neither of the two lifetimes
    rw [if_neg hempty]
    cases hfind : kCCDirectives.find? (asciiEqualsIgnoreCase (directiveName token) ·.1) with
    | some d =>
      have hmax : asciiEqualsIgnoreCase (directiveName token) (lit "max-age") = false := by
        by_contra h
        simp [find?_of_lifetime (Or.inl (Bool.eq_true_of_not_eq_false h))] at hfind
      have hs : asciiEqualsIgnoreCase (directiveName token) (lit "s-maxage") = false := by
        by_contra h
        simp [find?_of_lifetime (Or.inr (Bool.eq_true_of_not_eq_false h))] at hfind
      rw [lifetimeOf_none hmax, lifetimeOf_none hs, tokenFlags, hfind]
      simp [UInt16.or_assoc]
    | none =>
      rw [tokenFlags, hfind]
      simp only [lifetimeOf, directiveValue]
      by_cases hmax : asciiEqualsIgnoreCase (directiveName token) (lit "max-age")
      · have hs : asciiEqualsIgnoreCase (directiveName token) (lit "s-maxage") = false := by
          refine decide_eq_false fun h => ?_
          exact absurd ((of_decide_eq_true hmax).symm.trans h) (by decide)
        simp [hmax, hs]
      · by_cases hs : asciiEqualsIgnoreCase (directiveName token) (lit "s-maxage")
          <;> simp [hmax, hs]

/-! ## All lines -/

variable (lines : List Bytes)

/-- The tokens of some lines. -/
def tokensOf : List Bytes := lines.flatMap commaTokens

/-- The last lifetime of a name, or none. -/
def lifetimes (name : Bytes) (lines : List Bytes) : List ℕ :=
  (tokensOf lines).filterMap (lifetimeOf name)

/-- Tokens are joined: flags by `or`, lifetimes by the last one. -/
theorem foldl_accumulateToken (tokens : List Bytes) : tokens.foldl accumulateToken out =
    { ccFlags := (tokens.map tokenFlags).foldl (· ||| ·) out.ccFlags
      maxAge := (tokens.filterMap (lifetimeOf (lit "max-age"))).getLastD out.maxAge
      sMaxage := (tokens.filterMap (lifetimeOf (lit "s-maxage"))).getLastD out.sMaxage } := by
  induction tokens generalizing out with
  | nil => rfl
  | cons token tokens ih =>
    rw [foldl_cons, ih, accumulateToken_eq]
    have hlast (name : Bytes) (n : ℕ) : (tokens.filterMap (lifetimeOf name)).getLastD
      ((lifetimeOf name token).getD n) =
        ((token :: tokens).filterMap (lifetimeOf name)).getLastD n := by
      cases h : lifetimeOf name token with
      | none => rw [filterMap_cons_none h]; rfl
      | some m => rw [filterMap_cons_some h, getLastD_cons]; rfl
    rw [hlast, hlast]
    rfl

/-- The flags of a line: one for the header, and those of its tokens. -/
def lineFlags (line : Bytes) : List UInt16 :=
  kCCOriginHeaderPresent :: (commaTokens line).map tokenFlags

/-- Lines are joined like tokens. -/
theorem foldl_accumulate : lines.foldl accumulateOriginCacheControl out =
    { ccFlags := (lines.flatMap lineFlags).foldl (· ||| ·) out.ccFlags
      maxAge := (lifetimes (lit "max-age") lines).getLastD out.maxAge
      sMaxage := (lifetimes (lit "s-maxage") lines).getLastD out.sMaxage } := by
  induction lines generalizing out with
  | nil => rfl
  | cons line lines ih =>
    rw [foldl_cons, ih, accumulateOriginCacheControl, foldl_accumulateToken]
    simp [lifetimes, tokensOf, lineFlags, filterMap_append, getLast?_append, Option.getD_or]

/-- The counters count the lifetimes. -/
theorem sum_countDirective (name : Bytes) (lines : List Bytes) :
    (lines.map (countDirective · name)).sum = (lifetimes name lines).length := by
  have hline (line : Bytes) : countDirective line name =
      ((commaTokens line).filterMap (lifetimeOf name)).length := by
    rw [length_filterMap_eq_countP, countDirective]
    refine countP_congr fun token _ => ?_
    change asciiEqualsIgnoreCase (directiveName token) name = true ↔ _
    unfold lifetimeOf
    split_ifs with h <;> simp [h]
  rw [lifetimes, tokensOf, filterMap_flatMap, length_flatMap]
  exact congrArg List.sum (map_congr_left fun line _ => hline line)

/-! ## Lines in another order -/

section Perm

variable {lines lines' : List Bytes} (h : lines.Perm lines')
include h

/-- The flags do not depend on the order of the lines. -/
theorem ccFlags_perm : (lines.foldl accumulateOriginCacheControl {}).ccFlags =
    (lines'.foldl accumulateOriginCacheControl {}).ccFlags := by
  rw [foldl_accumulate, foldl_accumulate]
  exact (h.flatMap_right lineFlags).foldl_op_eq

theorem lifetimes_perm (name : Bytes) : (lifetimes name lines).Perm (lifetimes name lines') :=
  (h.flatMap_right commaTokens).filterMap (lifetimeOf name)

theorem sum_countDirective_perm (name : Bytes) :
    (lines.map (countDirective · name)).sum = (lines'.map (countDirective · name)).sum :=
  (h.map _).sum_nat

/-- One lifetime is the last one, in any order. -/
theorem lifetimes_eq_of_count_le_one {name : Bytes}
    (hone : (lines.map (countDirective · name)).sum ≤ 1) :
    lifetimes name lines = lifetimes name lines' := by
  rw [sum_countDirective] at hone
  match hl : lifetimes name lines, hone with
  | [], _ => exact (nil_perm.1 (hl ▸ lifetimes_perm h name)).symm
  | [n], _ => exact (perm_singleton.1 (hl ▸ (lifetimes_perm h name).symm)).symm

/-- Nor does a lifetime that is given at most once. -/
theorem maxAge_perm (hone : (lines.map (countDirective · (lit "max-age"))).sum ≤ 1) :
    (lines.foldl accumulateOriginCacheControl {}).maxAge =
      (lines'.foldl accumulateOriginCacheControl {}).maxAge := by
  rw [foldl_accumulate, foldl_accumulate, lifetimes_eq_of_count_le_one h hone]

/-- The same for `s-maxage`. -/
theorem sMaxage_perm (hone : (lines.map (countDirective · (lit "s-maxage"))).sum ≤ 1) :
    (lines.foldl accumulateOriginCacheControl {}).sMaxage =
      (lines'.foldl accumulateOriginCacheControl {}).sMaxage := by
  rw [foldl_accumulate, foldl_accumulate, lifetimes_eq_of_count_le_one h hone]

end Perm

/-! ## Joined lists -/

/-- The members of a list, trimmed, without the empty ones. -/
def members (s : Bytes) : List Bytes := ((commaTokens s).map trimOws).filter (· ≠ [])

/-- Where a comma is put, the tokens of the two sides follow each other, up to an empty one. -/
theorem commaTokens_append_comma (a b : Bytes) :
    ∃ empty, (empty = [] ∧ commaTokens a ≠ [] ∨ empty = [[]]) ∧
    commaTokens (a ++ ch ',' :: b) = commaTokens a ++ empty ++ commaTokens b := by
  induction a with
  | nil => exact ⟨[[]], Or.inr rfl, by simp [commaTokens]⟩
  | cons c a ih =>
    obtain ⟨empty, hempty, heq⟩ := ih
    simp only [cons_append, commaTokens, heq]
    by_cases hc : c = ch ','
    · simp only [if_pos hc]
      exact ⟨empty, hempty.imp (And.imp_right fun _ => cons_ne_nil _ _) id, rfl⟩
    · simp only [if_neg hc]
      rcases hempty with ⟨rfl, hne⟩ | rfl
      · obtain ⟨token, tokens, h⟩ := exists_cons_of_ne_nil hne
        exact ⟨[], Or.inl ⟨rfl, by simp [h]⟩, by simp [h]⟩
      · cases h : commaTokens a with
        | nil => exact ⟨[], Or.inl ⟨rfl, by simp⟩, by simp⟩
        | cons token tokens => exact ⟨[[]], Or.inr rfl, by simp⟩

/-- A list is read comma by comma. -/
theorem members_append_comma (a b : Bytes) : members (a ++ ch ',' :: b) = members a ++
    members b := by
  obtain ⟨empty, hempty, heq⟩ := commaTokens_append_comma a b
  rw [members, heq, members, members]
  rcases hempty with ⟨rfl, -⟩ | rfl <;> simp [trimOws]

theorem members_cons (hc : isOws c) (hne : c ≠ ch ',') (s : Bytes) :
    members (c :: s) = members s := by
  rw [members, commaTokens, if_neg hne, members]
  cases commaTokens s with
  | nil =>
    have hnone : trimOws [c] = [] := trimOws_cons hc []
    simp [hnone]
  | cons token tokens => simp [trimOws_cons hc]

/-- The members of joined lines are those of the lines. A separator is a comma, and whitespace. -/
theorem members_foldl_join {sep : Bytes} (hsep : sep = lit "," ∨ sep = lit ", ")
    (lines : List Bytes) (joined : Bytes) :
    members (lines.foldl (fun joined value => (if joined ≠ [] then joined ++ sep else joined) ++
      value) joined) = members joined ++ lines.flatMap members := by
  induction lines generalizing joined with
  | nil => simp
  | cons line lines ih =>
    rw [foldl_cons, ih, flatMap_cons, ← append_assoc]
    refine congrArg (· ++ _) ?_
    by_cases hj : joined = []
    · rw [if_neg (not_not.2 hj), hj]
      rfl
    · rw [if_pos hj]
      rcases hsep with rfl | rfl
      · rw [append_assoc, show lit "," ++ line = ch ',' :: line from rfl, members_append_comma]
      · rw [append_assoc, show lit ", " ++ line = ch ',' :: ch ' ' :: line from rfl,
          members_append_comma, members_cons (by decide) (by decide)]

/-- The lines of `Vary` are read as one list. -/
theorem varyTokensOf_joinVary :
    varyTokensOf (joinVary lines) = (lines.flatMap members).map asciiLower := by
  have h := members_foldl_join (Or.inr rfl) lines []
  rw [show members [] = [] from rfl, nil_append] at h
  rw [← h]
  rfl

/-- The list is storable if each of its members is allowed. -/
theorem classifyVaryTokens_storable (verdict : VaryStoreVerdict) (tokens : List Bytes) :
    (classifyVaryTokens verdict tokens).storable =
      (verdict.storable && ((tokens.map trimOws).filter (· ≠ [])).all fun token =>
        token ≠ lit "*" ∧ kAllowedVary.any (asciiEqualsIgnoreCase token ·)) := by
  induction tokens generalizing verdict with
  | nil => simp [classifyVaryTokens]
  | cons token tokens ih =>
    simp only [classifyVaryTokens, map_cons]
    by_cases hempty : trimOws token = []
    · rw [if_pos hempty, ih, filter_cons_of_neg (by simp [hempty])]
    · rw [if_neg hempty, filter_cons_of_pos (by simp [hempty]), all_cons]
      split_ifs with hstar hallowed haccept
      · simp [hstar]
      · simp [hallowed]
      all_goals
        rw [ih]
        simp [hstar, hallowed]

/-- A `Vary` is storable if every member is one of the allowed ones. -/
theorem varyUncacheable_eq (combinedVary : Bytes) : varyUncacheable combinedVary =
    !(members combinedVary).all fun token => token ≠ lit "*" ∧
      kAllowedVary.any (asciiEqualsIgnoreCase token ·) := by
  rw [varyUncacheable, classifyVaryForStore, classifyVaryTokens_storable]
  rfl

end PageSpeed.Cache
