import PageSpeed.Proof.CacheControl

/-!
# Quoted arguments of Cache-Control

The value is split at its commas, also at those in a quoted argument. What stands behind such a
comma is read as a token of its own: a bare `private`, or a lifetime.
-/

namespace PageSpeed.Cache

open Wire List

/-- The rest of a quoted string, behind its opening quote. -/
def closesQuote : Bytes → Bool
  | [] => false
  | [c] => c = ch '"'
  | c :: d :: s => if c = ch '\\' then closesQuote s else c ≠ ch '"' && closesQuote (d :: s)

/-- A directive of a list: a token, with a token or a quoted string as its argument. -/
structure Directive where
  before : Bytes
  name : Bytes
  argument : Option Bytes
  after : Bytes
  blank : ∀ c ∈ before ++ after, isOws c
  token : isFieldName name
  value : ∀ a ∈ argument, isFieldName a ∨ a.head? = some (ch '"') ∧ closesQuote a.tail

namespace Directive

variable (d : Directive)

/-- The directive as it is sent. -/
def text : Bytes := d.before ++ d.name ++ (d.argument.elim [] (ch '=' :: ·) ++ d.after)

variable (ds : List Directive)

/-- A list of directives as it is sent. -/
def listText : Bytes := [ch ','].intercalate (ds.map text)

/-- The token of a directive: its text, up to a comma in its argument. -/
def own : Bytes := d.text.takeWhile (· ≠ ch ',')

/-- The tokens that are stranded in its argument. -/
def stranded : List Bytes := commaTokens (d.text.dropWhile (· ≠ ch ',')).tail

/-- The directive of this name without an argument. -/
def isBare (name : Bytes) (d : Directive) : Bool :=
  asciiEqualsIgnoreCase d.name name ∧ d.argument = none

/-- All tokens, each with whether it stands outside of the quotes. -/
def tokens : List (Bytes × Bool) := ds.flatMap fun d => (d.own, true) :: d.stranded.map (·, false)

/-- The lifetimes of this name, each with whether it is in a quoted argument. -/
def lifetimes (name : Bytes) (ds : List Directive) : List (ℕ × Bool) :=
  (tokens ds).filterMap fun t => (lifetimeOf name t.1).map (·, t.2)

/-- The last lifetime outside of the quotes. -/
def lastOutside (ls : List (ℕ × Bool)) : ℕ := ((ls.filter (·.2)).map (·.1)).getLastD 0

/-- A token without an argument. -/
def isBareToken (name token : Bytes) : Bool :=
  asciiEqualsIgnoreCase (directiveName token) name ∧ ch '=' ∉ trimOws token

/-- The directives whose bare form has a flag. -/
def bareFlags : List (Bytes × UInt16) :=
  [(lit "private", kCCOriginPrivateBare), (lit "no-cache", kCCOriginNoCacheBare)]

/-! ## Flags of tokens -/

/-- The flag of a bare directive is set by that token alone. -/
theorem tokenFlags_bare {f : Bytes × UInt16} (hf : f ∈ bareFlags) (token : Bytes) :
    tokenFlags token &&& f.2 ≠ 0 ↔ isBareToken f.1 token := by
  have htable : ∀ f ∈ bareFlags, kCCOriginSMaxagePresent &&& f.2 = 0 ∧
    (∃ d ∈ kCCDirectives, d.1 = f.1) ∧
      ∀ d ∈ kCCDirectives, ∀ b, (d.2 ||| formFlag d.2 b) &&& f.2 ≠ 0 ↔
        asciiEqualsIgnoreCase d.1 f.1 ∧ b = false := by
    decide +kernel
  obtain ⟨hs, ⟨d', hd', heq⟩, hform⟩ := htable f hf
  rw [tokenFlags, isBareToken]
  cases hfind : kCCDirectives.find? (asciiEqualsIgnoreCase (directiveName token) ·.1) with
  | some d =>
    have hname := find?_some hfind
    rw [asciiEqualsIgnoreCase, decide_eq_true_eq] at hname
    rw [hform d (mem_of_find?_eq_some hfind), asciiEqualsIgnoreCase, asciiEqualsIgnoreCase, hname]
    simp
  | none =>
    have hname := find?_eq_none.1 hfind d' hd'
    rw [heq] at hname
    simp only [hname]
    split_ifs <;> simp [hs]

/-- A flag is set if one of the parts sets it. -/
theorem foldl_or_and_ne_zero (fs : List UInt16) (b out : UInt16) :
    fs.foldl (· ||| ·) out &&& b ≠ 0 ↔ out &&& b ≠ 0 ∨ ∃ f ∈ fs, f &&& b ≠ 0 := by
  induction fs generalizing out with
  | nil => simp
  | cons f fs ih =>
    have hor : (out ||| f) &&& b = out &&& b ||| f &&& b :=
      UInt16.toBitVec_inj.1 BitVec.and_or_distrib_right
    rw [foldl_cons, ih, hor, Ne, UInt16.or_eq_zero_iff, not_and_or, or_assoc]
    simp

/-! ## Tokens of a list -/

/-- White space around a word is dropped. -/
theorem trimOws_pad {a s b : Bytes} (ha : ∀ c ∈ a, isOws c) (hb : ∀ c ∈ b, isOws c)
    (hs : ∀ c ∈ s, isOws c = false) (hne : s ≠ []) : trimOws (a ++ s ++ b) = s := by
  obtain ⟨c, s, rfl⟩ := exists_cons_of_ne_nil hne
  obtain ⟨hc, hs⟩ := forall_mem_cons.1 hs
  have hself : s.reverse.dropWhile isOws = s.reverse :=
    dropWhile_eq_self_iff.2 fun h => Bool.eq_false_iff.1 (hs _ (mem_reverse.1 (getElem_mem h)))
  rw [append_assoc, cons_append, trimOws_stop hc, dropWhile_eq_nil_iff.2 ha, reverse_append,
    dropWhile_append_of_pos (by simpa using hb), hself, reverse_reverse, nil_append]

theorem commaTokens_of_ne_nil {s : Bytes} (h : s ≠ []) :
    commaTokens s = s.takeWhile (· ≠ ch ',') :: commaTokens (s.dropWhile (· ≠ ch ',')).tail := by
  induction s with
  | nil => contradiction
  | cons c s ih =>
    by_cases hc : c = ch ','
    · simp [commaTokens, hc]
    · cases s with
      | nil => simp [commaTokens, hc]
      | cons d s =>
        rw [commaTokens, if_neg hc, ih (by simp)]
        simp [hc]

/-- The tokens of the directives are those of the header. -/
theorem map_tokens : (tokens ds).map (·.1) = ds.flatMap (commaTokens ·.text) := by
  have htokens (d : Directive) : commaTokens d.text = d.own :: d.stranded := by
    apply commaTokens_of_ne_nil
    have := d.token
    simp_all [text, isFieldName]
  simp [tokens, htokens, map_flatMap, Function.comp_def]

/-- The tokens of a list are those of its directives, up to empty ones. -/
theorem foldl_listText (out : OriginCacheControl) :
    (commaTokens (listText ds)).foldl accumulateToken out =
      ((tokens ds).map (·.1)).foldl accumulateToken out := by
  rw [map_tokens]
  induction ds generalizing out with
  | nil => rfl
  | cons d ds ih =>
    cases ds with
    | nil => simp [listText]
    | cons e ds =>
      obtain ⟨empty, hempty, heq⟩ := commaTokens_append_comma d.text (listText (e :: ds))
      have hlist : listText (d :: e :: ds) = d.text ++ ch ',' :: listText (e :: ds) := by
        simp [listText]
      rw [flatMap_cons, foldl_append, hlist, heq, foldl_append, foldl_append, ih]
      rcases hempty with ⟨rfl, -⟩ | rfl <;> rfl

/-- The own token has the name of the directive, and an argument if the directive has one. -/
theorem directiveName_own : directiveName d.own = d.name ∧
    (ch '=' ∈ trimOws d.own ↔ d.argument ≠ none) := by
  have hchars : ∀ c, (isTokenChar c → isOws c = false) ∧
      (isTokenChar c ∨ isOws c → c ≠ ch ',' ∧ c ≠ ch '=') := by
    decide +kernel
  obtain ⟨hne, hname⟩ : d.name ≠ [] ∧ ∀ c ∈ d.name, isTokenChar c := by
    simpa [isFieldName] using d.token
  have hows : ∀ c ∈ d.name, isOws c = false := fun c hc => (hchars c).1 (hname c hc)
  obtain ⟨hbefore, hafter⟩ := forall_mem_append.1 d.blank
  have hplain : ∀ c ∈ d.before ++ d.name ++ d.after, c ≠ ch ',' ∧ c ≠ ch '=' :=
    fun c hc => (hchars c).2 (by grind)
  have heq : ch '=' ∉ d.before ++ d.name ++ d.after := fun h => (hplain _ h).2 rfl
  rw [own, text]
  cases harg : d.argument with
  | none =>
    -- no argument: the own part ends with the name and its blanks
    have hcomma : ch ',' ∉ d.before ++ d.name ++ d.after := fun h => (hplain _ h).1 rfl
    rw [Option.elim_none, nil_append, takeWhile_ne_of_not_mem hcomma, directiveName,
      takeWhile_ne_of_not_mem heq, trimOws_pad hbefore hafter hows hne]
    exact ⟨rfl, fun h => absurd (mem_append_left _ (mem_append_right _ h)) heq,
      fun h => absurd rfl h⟩
  | some a =>
    -- the name ends at the equals sign, whatever the argument holds
    have hfront : ∀ c ∈ d.before ++ d.name, decide (c ≠ ch ',') :=
      fun c hc => decide_eq_true (hplain c (mem_append_left _ hc)).1
    have htrim := trimOws_pad hbefore (b := []) (by simp) hows hne
    rw [append_nil] at htrim
    rw [Option.elim_some, cons_append, takeWhile_append_of_pos hfront,
      takeWhile_cons_of_pos (by decide),
      directiveName, takeWhile_until fun h => heq (mem_append_left _ h), htrim,
        trimOws_stop (by decide)]
    simp

/-- The last one of all is the last one outside, or gives the same. -/
theorem getLastD_eq_lastOutside_iff (ls : List (ℕ × Bool)) :
    (ls.map (·.1)).getLastD 0 = lastOutside ls ↔ ∀ n ∈ ls.getLast?, n.2 = false →
      n.1 = lastOutside ls := by
  rcases ls.eq_nil_or_concat with rfl | ⟨ls, ⟨n, b⟩, rfl⟩
  · simp [lastOutside]
  · cases b <;> simp [lastOutside]

/-- **A quoted argument fakes nothing** unless it hides a bare directive that the list lacks, or the
last lifetime. -/
theorem accumulateOriginCacheControl_quoted_iff (ds : List Directive) :
    let out := accumulateOriginCacheControl {} (listText ds)
    ((∀ f ∈ bareFlags, out.ccFlags &&& f.2 ≠ 0 ↔ ∃ d ∈ ds, d.isBare f.1) ∧
      out.maxAge = lastOutside (lifetimes (lit "max-age") ds) ∧
      out.sMaxage = lastOutside (lifetimes (lit "s-maxage") ds)) ↔
    (∀ f ∈ bareFlags, (∃ t ∈ tokens ds, t.2 = false ∧ isBareToken f.1 t.1) → ∃ d ∈ ds,
      d.isBare f.1) ∧
      ∀ name ∈ [lit "max-age", lit "s-maxage"], ∀ n ∈ (lifetimes name ds).getLast?, n.2 = false →
        n.1 = lastOutside (lifetimes name ds) := by
  intro out
  have hout : out = _ := (foldl_listText ds _).trans (foldl_accumulateToken _ _)
  have hlast (name : Bytes) : ((tokens ds).map (·.1)).filterMap (lifetimeOf name) =
      (lifetimes name ds).map (·.1) := by
    simp [lifetimes, filterMap_map, map_filterMap, Function.comp_def]
  rw [hout]
  refine and_congr (forall₂_congr fun f hf => ?_) ?_
  · have hinit : ∀ f ∈ bareFlags, (0 ||| kCCOriginHeaderPresent) &&& f.2 = 0 := by decide
    have hown (d : Directive) : isBareToken f.1 d.own ↔ d.isBare f.1 := by
      simp [isBareToken, isBare, d.directiveName_own]
    rw [foldl_or_and_ne_zero, or_iff_right (not_not.2 (hinit f hf)), ← or_iff_left_iff_imp]
    simp [tokens, tokenFlags_bare hf, hown, or_and_right, and_or_left, exists_or]
  · rw [hlast, hlast, forall_mem_cons, forall_mem_singleton]
    exact and_congr (getLastD_eq_lastOutside_iff _) (getLastD_eq_lastOutside_iff _)

theorem accumulateOriginCacheControl_stranded : ∃ d : Directive,
    listText [d] = lit "x=\"a, private, max-age=5\"" ∧
    d.isBare (lit "private") = false ∧ lastOutside (lifetimes (lit "max-age") [d]) = 0 ∧
    (accumulateOriginCacheControl {} (listText [d])).ccFlags &&& kCCOriginPrivateBare ≠ 0 ∧
    (accumulateOriginCacheControl {} (listText [d])).maxAge = 5 := by
  refine ⟨⟨[], lit "x", some (lit "\"a, private, max-age=5\""), [], ?_, ?_, ?_⟩, ?_⟩
  all_goals decide +kernel

end Directive

end PageSpeed.Cache
