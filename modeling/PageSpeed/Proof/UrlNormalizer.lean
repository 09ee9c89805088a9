import PageSpeed.Proof.UrlSplit
import PageSpeed.Choice.Dedup

/-!
# When a normalised cache url is a fixed point

* `normalizeCacheUrl_fixed_iff`: a second normalisation changes nothing exactly on stable
  urls: no percent sign is completed by what it stands in front of, and no query parameter
  of the result reads as a scheme.
* `decode_eq_iff_of_normal_forms_eq`: two paths with one normal form decode alike exactly when their
  stray percent signs stand in the same places.
* `length_normalizeCacheUrl_le`: normalising makes no url longer.
-/

namespace PageSpeed

open Wire List QueryParam

/-! ## The parameters of a normalised url -/

/-- What the sort compares. -/
def QueryParam.rank (p : QueryParam) : List ℕ ×ₗ List ℕ :=
  toLex (p.key.map UInt8.toNat, p.value.map UInt8.toNat)

theorem map_toNat_inj {a b : Bytes} : a.map UInt8.toNat = b.map UInt8.toNat ↔ a = b :=
  (map_injective_iff.2 fun _ _ h => UInt8.toNat_inj.1 h).eq_iff

/-- Equal ranks are equal keys and values. -/
theorem rank_eq_iff {a b : QueryParam} : a.rank = b.rank ↔ a.key = b.key ∧ a.value = b.value := by
  unfold rank
  rw [toLex_inj, Prod.mk.injEq, map_toNat_inj, map_toNat_inj]

/-- The comparison of the source is a linear order on ranks. -/
theorem paramLess_iff {a b : QueryParam} : paramLess a b = true ↔ a.rank < b.rank := by
  unfold paramLess rank bytesLess
  rw [Prod.Lex.toLex_lt_toLex]
  by_cases hk : a.key = b.key
  · simp [hk]
  · simp [hk, map_toNat_inj]

theorem paramSame_iff (a b : QueryParam) : paramSame a b = false ↔ a.rank ≠ b.rank := by
  unfold paramSame
  rw [decide_eq_false_iff_not, ne_eq, rank_eq_iff]

/-- A sort that is stable. -/
def StdSort.merge : StdSort where
  run l := l.mergeSort fun a b => !paramLess b a
  perm l := List.mergeSort_perm l _
  sorted l := by
    refine (List.pairwise_mergeSort ?_ ?_ l).imp fun h => by simpa using h
    · intro a b c hab hbc
      simp only [Bool.not_eq_true', Bool.eq_false_iff, ne_eq, paramLess_iff, not_lt] at *
      exact hab.trans hbc
    · intro a b
      simp only [Bool.or_eq_true, Bool.not_eq_true', Bool.eq_false_iff, ne_eq,
        paramLess_iff, not_lt]
      exact le_total _ _

section Cook

variable {sort : StdSort} {config : UrlNormalizationConfig} {L P : List QueryParam} {p : QueryParam}

/-- What is left was there and is not stripped. -/
theorem mem_of_mem_cook (h : p ∈ cookParams sort config L) :
    p ∈ L ∧ p.key ∉ config.stripQueryParams := by
  have hf := (sort.perm _).subset ((destutter_sublist _ _).subset h)
  obtain ⟨hp, hk⟩ := mem_filter.1 hf
  exact ⟨hp, of_decide_eq_true hk⟩

theorem sort_sorted (l : List QueryParam) : (sort.run l).Pairwise fun a b => a.rank ≤ b.rank :=
  (sort.sorted l).imp fun h => by
    rwa [Bool.eq_false_iff, ne_eq, paramLess_iff, not_lt] at h

/-- What is left is sorted without repetition. -/
theorem pairwise_cook : (cookParams sort config L).Pairwise fun a b => a.rank < b.rank :=
  Choice.pairwise_lt_destutter paramSame_iff (sort_sorted _)

/-- Nothing else is lost. -/
theorem exists_mem_cook (hp : p ∈ L) (hk : p.key ∉ config.stripQueryParams) :
    ∃ p' ∈ cookParams sort config L, p'.rank = p.rank := by
  apply Choice.exists_mem_destutter paramSame_iff
  exact (sort.perm _).symm.subset (mem_filter.2 ⟨hp, decide_eq_true hk⟩)

/-- **What was cooked is left alone.** -/
theorem cook_eq_self (hs : P.Pairwise fun a b => a.rank < b.rank)
    (hk : ∀ p ∈ P, p.key ∉ config.stripQueryParams) : cookParams sort config P = P := by
  unfold cookParams
  rw [filter_eq_self.2 fun p hp => decide_eq_true (hk p hp),
    Choice.eq_of_perm_of_sorted (sort.perm P) (sort_sorted P) hs,
    Choice.destutter_of_pairwise_lt paramSame_iff hs]

/-! Normalising a parameter again makes it lighter or changes nothing, and filter, sort and
dedup add no weight. -/

/-- The weight of a parameter. -/
def QueryParam.weight (p : QueryParam) : ℕ := PageSpeed.weight p.key + PageSpeed.weight p.value

theorem weight_norm_le (p : QueryParam) : p.norm.weight ≤ p.weight :=
  Nat.add_le_add (weight_normalize_le p.key) (weight_normalize_le p.value)

theorem norm_eq_self_iff : p.norm = p ↔
    normalizePercentEncoding p.key = p.key ∧ normalizePercentEncoding p.value = p.value := by
  obtain ⟨key, value, hasEquals⟩ := p
  simp [QueryParam.norm]

/-- A parameter that changes loses weight. -/
theorem weight_norm_lt (h : p.norm ≠ p) : p.norm.weight < p.weight := by
  rw [ne_eq, norm_eq_self_iff, not_and_or] at h
  rcases h with h | h
  · have hk := (weight_normalize p.key).resolve_right h
    exact Nat.add_lt_add_of_lt_of_le hk (weight_normalize_le p.value)
  · have hv := (weight_normalize p.value).resolve_right h
    exact Nat.add_lt_add_of_le_of_lt (weight_normalize_le p.key) hv

/-- Cooking adds nothing up. -/
theorem sum_cook_le (sort : StdSort) (config : UrlNormalizationConfig) (L : List QueryParam)
    (f : QueryParam → ℕ) :
    ((cookParams sort config L).map f).sum ≤ (L.map f).sum := by
  calc ((cookParams sort config L).map f).sum
      ≤ ((sort.run (L.filter _)).map f).sum :=
        ((destutter_sublist _ _).map _).sum_le_sum fun _ _ => Nat.zero_le _
    _ = ((L.filter _).map f).sum := ((sort.perm _).map _).sum_eq
    _ ≤ (L.map f).sum := (filter_sublist.map _).sum_le_sum fun _ _ => Nat.zero_le _

/-- **Cooking the normalised parameters again** gives them back exactly when each is settled. -/
theorem cook_norm_eq_iff (hs : P.Pairwise fun a b => a.rank < b.rank)
    (hk : ∀ p ∈ P, p.key ∉ config.stripQueryParams) :
    cookParams sort config (P.map QueryParam.norm) = P ↔ ∀ p ∈ P, p.norm = p := by
  constructor
  · intro h
    by_contra hne
    push Not at hne
    have hle := sum_cook_le sort config (P.map QueryParam.norm) QueryParam.weight
    rw [h, map_map] at hle
    have hlt : (P.map (QueryParam.weight ∘ QueryParam.norm)).sum <
        (P.map QueryParam.weight).sum := by
      obtain ⟨p, hp, hpn⟩ := hne
      exact sum_lt_sum _ _ (fun p _ => weight_norm_le p) ⟨p, hp, weight_norm_lt hpn⟩
    omega
  · intro h
    rw [map_congr_left h, map_id']
    exact cook_eq_self hs hk

end Cook

/-! ## Parameters that read as a scheme -/

/-- The parameter holds a slash. -/
def QueryParam.Slashed (p : QueryParam) : Prop := ch '/' ∈ p.key ∨ ch '/' ∈ p.value

/-- The first slash of the parameter stands in "://". -/
def QueryParam.Opens (p : QueryParam) : Prop := Schemed p.key ∨ ch '/' ∉ p.key ∧ Schemed p.value

theorem not_schemed_nil : ¬ Schemed [] := by
  rintro ⟨a, b, h, -⟩
  exact absurd h.symm (append_ne_nil_of_right_ne_nil a (cons_ne_nil _ _))

section Text

variable {p : QueryParam}

/-- A slash in a parameter, by its parts. -/
theorem QueryParam.Parsed.slash_text (h : p.Parsed) : ch '/' ∈ p.text ↔ p.Slashed := by
  unfold text QueryParam.Slashed
  cases he : p.hasEquals with
  | true =>
    rw [if_pos rfl, mem_append, mem_cons]
    simp only [show ch '/' ≠ ch '=' by decide, false_or]
  | false => simp [(h.bare he).1]

/-- A scheme in a parameter, by its parts. -/
theorem QueryParam.Parsed.schemed_text (h : p.Parsed) : Schemed p.text ↔ p.Opens := by
  unfold text QueryParam.Opens
  cases he : p.hasEquals with
  | true =>
    rw [if_pos rfl]
    exact schemed_append_iff (by decide) (by decide) _ _
  | false =>
    simp only [Bool.false_eq_true, if_false, append_nil, (h.bare he).1, not_schemed_nil,
      and_false, or_false]

/-- Normalising makes no slash. -/
theorem slashed_norm_iff : p.norm.Slashed ↔ p.Slashed := by
  obtain ⟨-, -, -, -, rslash, -⟩ := reserved_delims
  unfold QueryParam.Slashed QueryParam.norm
  rw [mem_normalize_iff rslash, mem_normalize_iff rslash]

theorem opens_norm_iff : p.norm.Opens ↔ p.Opens := by
  obtain ⟨-, -, -, -, rslash, -⟩ := reserved_delims
  unfold QueryParam.Opens QueryParam.norm
  rw [mem_normalize_iff rslash, schemed_normalize_iff, schemed_normalize_iff]

end Text

/-- The first slash of the joined strings is the first slash of one of them. -/
theorem schemed_join_iff (ts : List Bytes) : Schemed ([ch '&'].intercalate ts) ↔
    ∃ l t r, ts = l ++ t :: r ∧ (∀ x ∈ l, ch '/' ∉ x) ∧ Schemed t := by
  induction ts with
  | nil =>
    constructor
    · intro h; exact absurd h not_schemed_nil
    · rintro ⟨l, t, r, h, -⟩
      exact absurd h.symm (append_ne_nil_of_right_ne_nil l (cons_ne_nil _ _))
  | cons t ts ih =>
    -- the first part with a scheme is `t`, or comes later and `t` has no slash
    have hsplit : (∃ l u r, t :: ts = l ++ u :: r ∧ (∀ x ∈ l, ch '/' ∉ x) ∧ Schemed u) ↔
        Schemed t ∨ ch '/' ∉ t ∧ ∃ l u r, ts = l ++ u :: r ∧ (∀ x ∈ l, ch '/' ∉ x) ∧ Schemed u := by
      constructor
      · rintro ⟨l, u, r, h, hl, hu⟩
        cases l with
        | nil =>
          left
          rw [(cons.inj h).1]
          exact hu
        | cons y l =>
          cases h
          obtain ⟨hy, hl⟩ := forall_mem_cons.1 hl
          exact .inr ⟨hy, l, u, r, rfl, hl, hu⟩
      · rintro (h | ⟨ht, l, u, r, rfl, hl, hu⟩)
        · exact ⟨[], t, ts, rfl, by simp, h⟩
        · exact ⟨t :: l, u, r, rfl, forall_mem_cons.2 ⟨ht, hl⟩, hu⟩
    rw [hsplit, ← ih]
    cases ts with
    | nil =>
      rw [show [ch '&'].intercalate [t] = t by simp [List.intercalate]]
      simp [not_schemed_nil, List.intercalate]
    | cons u ts =>
      rw [intercalate_cons_cons, append_assoc]
      exact schemed_append_iff (by decide) (by decide) _ _

/-- In a strictly sorted list, what comes before an element is what is smaller. -/
theorem exists_append_iff_of_sorted {P : List QueryParam} {Q S : QueryParam → Prop}
    (hs : P.Pairwise fun a b => a.rank < b.rank) :
    (∃ l p r, P = l ++ p :: r ∧ (∀ x ∈ l, Q x) ∧ S p) ↔
      ∃ p ∈ P, S p ∧ ∀ a ∈ P, a.rank < p.rank → Q a := by
  constructor
  · rintro ⟨l, p, r, rfl, hl, hp⟩
    refine ⟨p, by simp, hp, fun a ha hap => ?_⟩
    rcases mem_append.1 ha with ha | ha
    · exact hl a ha
    · obtain ⟨-, hpr, -⟩ := pairwise_append.1 hs
      rcases mem_cons.1 ha with rfl | ha
      · exact absurd hap (lt_irrefl _)
      · exact absurd hap ((pairwise_cons.1 hpr).1 a ha).asymm
  · rintro ⟨p, hp, hS, hQ⟩
    obtain ⟨l, r, rfl⟩ := append_of_mem hp
    obtain ⟨-, -, hlp⟩ := pairwise_append.1 hs
    refine ⟨l, p, r, rfl, fun x hx => hQ x (mem_append_left _ hx) ?_, hS⟩
    exact hlp x hx p mem_cons_self

/-- The first slash of the joined parameters stands in "://" exactly when a parameter opens
and no smaller one holds a slash. -/
theorem schemed_params_iff {P : List QueryParam} (hs : P.Pairwise fun a b => a.rank < b.rank)
    (hP : ∀ p ∈ P, p.Parsed) : Schemed ([ch '&'].intercalate (P.map QueryParam.text)) ↔
      ∃ p ∈ P, p.Opens ∧ ∀ a ∈ P, a.rank < p.rank → ¬ a.Slashed := by
  rw [schemed_join_iff, ← exists_append_iff_of_sorted hs]
  constructor
  · rintro ⟨l, t, r, h, hl, ht⟩
    obtain ⟨l, r', rfl, rfl, hr⟩ := map_eq_append_iff.1 h
    obtain ⟨p, r, rfl, rfl, rfl⟩ := map_eq_cons_iff.1 hr
    refine ⟨l, p, r, rfl, fun x hx => ?_, (hP p (by simp)).schemed_text.1 ht⟩
    rw [← (hP x (by simp [hx])).slash_text]
    exact hl _ (mem_map_of_mem hx)
  · rintro ⟨l, p, r, rfl, hl, hp⟩
    refine ⟨l.map text, p.text, r.map text, by simp, ?_,
      (hP p (by simp)).schemed_text.2 hp⟩
    intro x hx
    obtain ⟨a, ha, rfl⟩ := mem_map.1 hx
    rw [(hP a (by simp [ha])).slash_text]
    exact hl a ha

/-! ## The parameters of the input that survive -/

variable (config : UrlNormalizationConfig)

/-- The parameters of a query that are not stripped. -/
def keptParams (query : Bytes) : List QueryParam :=
  (parseQueryParams query).filter fun p => normalizePercentEncoding p.key ∉ config.stripQueryParams

/-- The parameters of the normalised url. -/
def cookedParams (sort : StdSort) (config : UrlNormalizationConfig) (query : Bytes) :
    List QueryParam :=
  cookParams sort config (parseQueryParams (normalizePercentEncoding query))

section Kept

variable {sort : StdSort} {config : UrlNormalizationConfig} {query : Bytes} {p a : QueryParam}

/-- Each cooked parameter comes from one that is kept. -/
theorem exists_kept (h : p ∈ cookedParams sort config query) : ∃ a ∈ keptParams config query,
    a.norm = p := by
  obtain ⟨hp, hk⟩ := mem_of_mem_cook h
  rw [parseQueryParams_normalize] at hp
  obtain ⟨a, ha, rfl⟩ := mem_map.1 hp
  exact ⟨a, mem_filter.2 ⟨ha, decide_eq_true hk⟩, rfl⟩

/-- And each of those is there. -/
theorem exists_cooked (sort : StdSort) (h : a ∈ keptParams config query) :
    ∃ p ∈ cookedParams sort config query, p.rank = a.norm.rank := by
  obtain ⟨ha, hk⟩ := mem_filter.1 h
  refine exists_mem_cook ?_ (of_decide_eq_true hk)
  rw [parseQueryParams_normalize]
  exact mem_map_of_mem ha

theorem parsed_of_mem_cooked (h : p ∈ cookedParams sort config query) : p.Parsed :=
  parsed_of_mem (mem_of_mem_cook h).1

theorem pairwise_cooked : (cookedParams sort config query).Pairwise fun a b => a.rank < b.rank :=
  pairwise_cook

/-- When a parameter is settled after one round. -/
theorem norm_norm_iff : a.norm.norm = a.norm ↔ Settled a.key ∧ Settled a.value := by
  rw [norm_eq_self_iff]
  exact and_congr (normalize_idem_iff a.key) (normalize_idem_iff a.value)

theorem norm_fixed_congr (h : p.rank = a.rank) : p.norm = p ↔ a.norm = a := by
  obtain ⟨hk, hv⟩ := rank_eq_iff.1 h
  rw [norm_eq_self_iff, norm_eq_self_iff, hk, hv]

theorem slashed_congr (h : p.rank = a.rank) : p.Slashed ↔ a.Slashed := by
  obtain ⟨hk, hv⟩ := rank_eq_iff.1 h
  unfold QueryParam.Slashed
  rw [hk, hv]

theorem opens_congr (h : p.rank = a.rank) : p.Opens ↔ a.Opens := by
  obtain ⟨hk, hv⟩ := rank_eq_iff.1 h
  unfold QueryParam.Opens
  rw [hk, hv]

/-- When all of them are. -/
theorem cooked_fixed_iff : (∀ p ∈ cookedParams sort config query, p.norm = p) ↔
    ∀ a ∈ keptParams config query, Settled a.key ∧ Settled a.value := by
  constructor
  · intro h a ha
    obtain ⟨p, hp, hr⟩ := exists_cooked sort ha
    rw [← norm_norm_iff]
    exact (norm_fixed_congr hr).1 (h p hp)
  · intro h p hp
    obtain ⟨a, ha, rfl⟩ := exists_kept hp
    exact norm_norm_iff.2 (h a ha)

/-- When one of them reads as a scheme. -/
theorem cooked_opens_iff :
    (∃ p ∈ cookedParams sort config query, p.Opens ∧
      ∀ a ∈ cookedParams sort config query, a.rank < p.rank → ¬ a.Slashed) ↔
    ∃ p ∈ keptParams config query, p.Opens ∧
      ∀ a ∈ keptParams config query, paramLess a.norm p.norm = true → ¬ a.Slashed := by
  constructor
  · rintro ⟨p, hp, ho, hmin⟩
    obtain ⟨a, ha, rfl⟩ := exists_kept hp
    refine ⟨a, ha, opens_norm_iff.1 ho, fun b hb hlt => ?_⟩
    obtain ⟨b', hb', hr⟩ := exists_cooked sort hb
    rw [paramLess_iff, ← hr] at hlt
    rw [← slashed_norm_iff, ← slashed_congr hr]
    exact hmin b' hb' hlt
  · rintro ⟨a, ha, ho, hmin⟩
    obtain ⟨p, hp, hr⟩ := exists_cooked sort ha
    refine ⟨p, hp, (opens_congr hr).2 (opens_norm_iff.2 ho), fun b hb hlt => ?_⟩
    obtain ⟨b', hb', rfl⟩ := exists_kept hb
    rw [hr, ← paramLess_iff] at hlt
    rw [slashed_norm_iff]
    exact hmin b' hb' hlt

end Kept

/-! ## Normalising twice -/

/-- A parameter of the result reads as a scheme: there is no slash before its "://". -/
def ReadsAsScheme (s : PathAndQuery) : Prop :=
  ch '/' ∉ s.path ∧ ∃ p ∈ keptParams config s.query, p.Opens ∧
    ∀ a ∈ keptParams config s.query, paramLess a.norm p.norm = true → ¬ a.Slashed

/-- The query of a url is looked at. -/
def ReadsQuery (s : PathAndQuery) : Prop :=
  s.hasQuery = true ∧ stripsQuery config (normalizePercentEncoding s.path) = false

/-- What a url must satisfy to be normalised once and for all. -/
structure Stable (config : UrlNormalizationConfig) (s : PathAndQuery) : Prop where
  path : Settled s.path
  params : ReadsQuery config s → ∀ p ∈ keptParams config s.query, Settled p.key ∧ Settled p.value
  scheme : ReadsQuery config s → ¬ ReadsAsScheme config s

theorem mem_of_mem_text {q : Bytes} {p : QueryParam} {c : UInt8} (h : p ∈ parseQueryParams q)
    (hc : c ∈ p.text) : c ∈ q := by
  obtain ⟨t, ht, rfl⟩ := mem_map.1 h
  obtain ⟨ht, hne⟩ := mem_filter.1 ht
  rw [(parsed_parseParam (of_decide_eq_true hne) (not_mem_of_mem_splitOn ht)).2] at hc
  exact (mem_of_mem_splitOn ht hc).1

section Twice

variable {sort : StdSort} {config : UrlNormalizationConfig} {url : Bytes} {s : PathAndQuery}

/-- The URL with its parameters. -/
theorem reassemble_cons {x : Bytes} {ps : List QueryParam} (h : ps ≠ []) :
    reassemble x ps = x ++ ch '?' :: [ch '&'].intercalate (ps.map QueryParam.text) := by
  rw [reassemble, if_neg (by simpa using h)]

/-- Path and parameters can be read off a reassembled url. -/
theorem reassemble_inj {x y : Bytes} {ps qs : List QueryParam} (hx : ch '?' ∉ x) (hy : ch '?' ∉ y)
    (hps : ∀ p ∈ ps, p.Parsed) (hqs : ∀ p ∈ qs, p.Parsed) :
    reassemble x ps = reassemble y qs ↔ x = y ∧ ps = qs := by
  refine ⟨fun h => ?_, fun h => by rw [h.1, h.2]⟩
  have hnil : ∀ (x y : Bytes) (ps : List QueryParam), ch '?' ∉ x → ps ≠ [] →
      x ≠ reassemble y ps := by
    intro x y ps hx hne h
    rw [reassemble_cons hne] at h
    exact hx (by rw [h]; simp)
  by_cases hp : ps = [] <;> by_cases hq : qs = []
  · subst hp hq
    exact ⟨h, rfl⟩
  · subst hp
    exact absurd h (hnil x y qs hx hq)
  · subst hq
    exact absurd h.symm (hnil y x ps hy hp)
  · rw [reassemble_cons hp, reassemble_cons hq] at h
    obtain ⟨rfl, hjoin⟩ := until_inj hx hy rfl rfl h
    refine ⟨rfl, ?_⟩
    rw [← parseQueryParams_join hps hp, (cons.inj hjoin).2, parseQueryParams_join hqs hq]

/-- The result where the query counts. -/
theorem normalizeCacheUrl_of_readsQuery
    (hs : extractPathAndQuery (extractSchemeAndAuthority url) = s) (h : ReadsQuery config s) :
    normalizeCacheUrl sort url config =
      reassemble (normalizePercentEncoding s.path) (cookedParams sort config s.query) := by
  subst hs
  unfold normalizeCacheUrl
  simp only [h.1, h.2, Bool.true_eq_false, Bool.false_eq_true, if_false]
  rfl

/-- And where it does not. -/
theorem normalizeCacheUrl_of_not_readsQuery
    (hs : extractPathAndQuery (extractSchemeAndAuthority url) = s) (h : ¬ ReadsQuery config s) :
    normalizeCacheUrl sort url config = normalizePercentEncoding s.path := by
  subst hs
  unfold normalizeCacheUrl
  simp only
  split_ifs with h1 h2
  · rfl
  · rfl
  · exact absurd ⟨by simpa using h1, by simpa using h2⟩ h

/-- A url that is only a path. -/
structure PathOnly (url : Bytes) : Prop where
  schemed : ¬ Schemed url
  hash : ch '#' ∉ url
  qmark : ch '?' ∉ url

/-- A path alone is only normalised. -/
theorem PathOnly.normalizeCacheUrl (h : PathOnly url) :
    normalizeCacheUrl sort url config = normalizePercentEncoding url := by
  have hs : extractPathAndQuery (extractSchemeAndAuthority url) = ⟨url, [], false⟩ := by
    rw [extract_of_not_schemed h.schemed, extractPathAndQuery_path h.hash h.qmark]
  exact normalizeCacheUrl_of_not_readsQuery hs fun hr => by cases hr.1

/-- And stays a path. -/
theorem PathOnly.normalize (h : PathOnly url) : PathOnly (normalizePercentEncoding url) := by
  obtain ⟨rhash, rqmark, -, -, -, -⟩ := reserved_delims
  refine ⟨?_, ?_, ?_⟩
  · rw [schemed_normalize_iff]; exact h.schemed
  · rw [mem_normalize_iff rhash]; exact h.hash
  · rw [mem_normalize_iff rqmark]; exact h.qmark

/-- The path that is split off is one. -/
theorem pathOnly_extract (url : Bytes) :
    PathOnly (extractPathAndQuery (extractSchemeAndAuthority url)).path := by
  have h := splitOf_extract (extractSchemeAndAuthority url)
  refine ⟨fun hs => not_schemed_extract url ?_, h.hash_path, h.qmark_path⟩
  obtain ⟨t, ht⟩ := h.path
  rw [← ht]
  exact hs.append t

/-- A url that reads as a scheme becomes a path. -/
theorem head?_normalizeCacheUrl (h : Schemed url) :
    (normalizeCacheUrl sort url config).head? = some (ch '/') := by
  have hpath : (normalizePercentEncoding
      (extractPathAndQuery (extractSchemeAndAuthority url)).path).head? = some (ch '/') := by
    obtain ⟨-, -, -, -, rslash, -⟩ := reserved_delims
    obtain ⟨t, ht⟩ := head?_eq_some_iff.1 (head?_path (head?_extract h))
    rw [ht, show ch '/' :: t = [] ++ ch '/' :: t from rfl, normalize_append rslash]
    rfl
  by_cases hr : ReadsQuery config (extractPathAndQuery (extractSchemeAndAuthority url))
  · rw [normalizeCacheUrl_of_readsQuery rfl hr, reassemble]
    split_ifs
    · exact hpath
    · rw [head?_append, hpath, Option.some_or]
  · rw [normalizeCacheUrl_of_not_readsQuery rfl hr]
    exact hpath

section Query

variable {s : PathAndQuery} (hr : ReadsQuery config s) (hpath : PathOnly s.path)
include hpath

/-- When the result reads as if it had a scheme. -/
theorem schemed_reassembled_iff (hne : cookedParams sort config s.query ≠ []) :
    Schemed (reassemble (normalizePercentEncoding s.path) (cookedParams sort config s.query)) ↔
      ReadsAsScheme config s := by
  obtain ⟨-, -, -, -, rslash, -⟩ := reserved_delims
  rw [reassemble_cons hne, schemed_append_iff (by decide) (by decide), schemed_normalize_iff,
    mem_normalize_iff rslash, schemed_params_iff pairwise_cooked fun p hp =>
      parsed_of_mem_cooked hp, cooked_opens_iff]
  exact or_iff_right hpath.schemed

/-- The second run splits the url where the first one joined it. -/
theorem extract_reassembled (hquery : ch '#' ∉ s.query)
    (hne : cookedParams sort config s.query ≠ []) (hscheme : ¬ ReadsAsScheme config s) :
    extractPathAndQuery (extractSchemeAndAuthority
      (reassemble (normalizePercentEncoding s.path) (cookedParams sort config s.query))) =
    ⟨normalizePercentEncoding s.path,
      [ch '&'].intercalate ((cookedParams sort config s.query).map QueryParam.text), true⟩ := by
  obtain ⟨rhash, -, -, -, -, -⟩ := reserved_delims
  have hhash : ch '#' ∉ [ch '&'].intercalate ((cookedParams sort config s.query).map text) := by
    refine not_mem_intercalate (by decide) fun t ht hc => hquery ?_
    obtain ⟨p, hp, rfl⟩ := mem_map.1 ht
    rw [← mem_normalize_iff rhash]
    exact mem_of_mem_text (mem_of_mem_cook hp).1 hc
  rw [extract_of_not_schemed (mt (schemed_reassembled_iff hpath hne).1 hscheme),
    reassemble_cons hne]
  exact extractPathAndQuery_split hpath.normalize.hash hhash hpath.normalize.qmark

include hr

/-- **A second normalisation of a url with a query.** -/
theorem normalize_reassembled_iff (hquery : ch '#' ∉ s.query) {r : Bytes}
    (heq : r = reassemble (normalizePercentEncoding s.path) (cookedParams sort config s.query)) :
    normalizeCacheUrl sort r config = r ↔ Stable config s := by
  by_cases hne : cookedParams sort config s.query = []
  · -- nothing is left of the query
    have hkept : keptParams config s.query = [] := by
      refine eq_nil_iff_forall_not_mem.2 fun a ha => ?_
      obtain ⟨p, hp, -⟩ := exists_cooked sort ha
      rw [hne] at hp
      cases hp
    obtain rfl : r = normalizePercentEncoding s.path := by rw [heq, hne]; rfl
    rw [hpath.normalize.normalizeCacheUrl, normalize_idem_iff]
    refine ⟨fun h => ⟨h, fun _ => by simp [hkept], fun _ => ?_⟩, Stable.path⟩
    rintro ⟨-, p, hp, -⟩
    rw [hkept] at hp
    cases hp
  by_cases hscheme : ReadsAsScheme config s
  · -- the second run strips a scheme, and what is left starts with a slash
    have hfirst : r.head? ≠ some (ch '/') := by
      obtain ⟨-, -, -, -, rslash, -⟩ := reserved_delims
      intro hhead
      rw [heq, reassemble_cons hne] at hhead
      cases hp : normalizePercentEncoding s.path with
      | nil =>
        rw [hp] at hhead
        exact absurd (Option.some.inj hhead) (by decide)
      | cons c t =>
        rw [hp] at hhead
        have hmem : ch '/' ∈ normalizePercentEncoding s.path := by
          rw [hp, ← Option.some.inj hhead]
          exact mem_cons_self
        exact hscheme.1 ((mem_normalize_iff rslash).1 hmem)
    refine ⟨fun h => absurd ?_ hfirst, fun h => absurd hscheme (h.scheme hr)⟩
    rw [← h]
    apply head?_normalizeCacheUrl
    rw [heq]
    exact (schemed_reassembled_iff hpath hne).2 hscheme
  have hs := heq ▸ extract_reassembled hpath hquery hne hscheme
  by_cases hstrip : stripsQuery config
    (normalizePercentEncoding (normalizePercentEncoding s.path)) = true
  · -- the path would have to change its extension
    rw [normalizeCacheUrl_of_not_readsQuery hs fun h => by rw [h.2] at hstrip; cases hstrip]
    refine ⟨fun h => ?_, fun h => ?_⟩
    · refine absurd (h ▸ hpath.normalize.normalize.qmark : ch '?' ∉ r) ?_
      rw [heq, reassemble_cons hne]
      simp
    · rw [(normalize_idem_iff _).2 h.path, hr.2] at hstrip
      cases hstrip
  · -- both runs read the query, and the second is a fixed point as the first was
    rw [normalizeCacheUrl_of_readsQuery hs ⟨rfl, by simpa using hstrip⟩]
    have hcooked : cookedParams sort config
        ([ch '&'].intercalate ((cookedParams sort config s.query).map text)) =
        cookParams sort config ((cookedParams sort config s.query).map norm) := by
      rw [cookedParams, parseQueryParams_normalize,
        parseQueryParams_join (fun p hp => parsed_of_mem_cooked hp) hne]
    conv_lhs => rw [heq]
    rw [reassemble_inj hpath.normalize.normalize.qmark hpath.normalize.qmark
        (fun p hp => parsed_of_mem_cooked hp) (fun p hp => parsed_of_mem_cooked hp), hcooked,
      cook_norm_eq_iff pairwise_cooked fun p hp => (mem_of_mem_cook hp).2, cooked_fixed_iff,
      normalize_idem_iff]
    exact ⟨fun h => ⟨h.1, fun _ => h.2, fun _ => hscheme⟩, fun h => ⟨h.path, h.params hr⟩⟩

end Query

/-- **When the normal form is a fixed point.** -/
theorem normalizeCacheUrl_fixed_iff (url : Bytes) :
    normalizeCacheUrl sort (normalizeCacheUrl sort url config) config =
        normalizeCacheUrl sort url config ↔
      Stable config (extractPathAndQuery (extractSchemeAndAuthority url)) := by
  have hpath := pathOnly_extract url
  have hquery := (splitOf_extract (extractSchemeAndAuthority url)).hash_query
  by_cases hr : ReadsQuery config (extractPathAndQuery (extractSchemeAndAuthority url))
  · exact normalize_reassembled_iff hr hpath hquery (normalizeCacheUrl_of_readsQuery rfl hr)
  · rw [normalizeCacheUrl_of_not_readsQuery rfl hr, hpath.normalize.normalizeCacheUrl,
      normalize_idem_iff]
    exact ⟨fun h => ⟨h, fun h' => absurd h' hr, fun h' => absurd h' hr⟩, Stable.path⟩

/-- **When equal normal forms decode alike**: the same percent signs must be stray. -/
theorem decode_eq_iff_of_normal_forms_eq {v w : Bytes} (hv : PathOnly v) (hw : PathOnly w)
    (h : normalizeCacheUrl sort v config = normalizeCacheUrl sort w config) :
    percentDecode v = percentDecode w ↔ marks (pieces v) = marks (pieces w) := by
  rw [hv.normalizeCacheUrl, hw.normalizeCacheUrl] at h
  exact decode_eq_iff h

end Twice

/-! ## The length of the normal form -/

/-- Normalisation makes nothing longer. -/
theorem length_normalize_le (s : Bytes) : (normalizePercentEncoding s).length ≤ s.length := by
  have hpiece : ∀ p ∈ pieces s, p.emit.length ≤ p.raw.length := by
    intro p _
    cases p with
    | escape a b =>
      rw [Piece.emit]
      split
      · exact Nat.le_add_left 1 2
      · exact le_refl 3
    | literal c => exact le_refl 1
  calc (normalizePercentEncoding s).length = ((pieces s).map fun p => p.emit.length).sum := by
        rw [normalizePercentEncoding_eq, length_flatMap]
    _ ≤ ((pieces s).map fun p => p.raw.length).sum := sum_le_sum hpiece
    _ = s.length := by rw [← length_flatMap, flatMap_raw_pieces]

theorem length_extractSchemeAndAuthority_le (url : Bytes) :
    (extractSchemeAndAuthority url).length ≤ url.length := by
  unfold extractSchemeAndAuthority
  simp only
  split
  · exact le_refl _
  · rename_i schemeEnd hfind
    split
    · split
      · rw [length_drop]
        exact Nat.sub_le _ _
      · -- the scheme is followed by three bytes, the url that remains is one
        have hlen := (find_spec hfind).1.length_le
        rw [length_drop] at hlen
        exact (show 1 ≤ 3 by decide).trans (hlen.trans (Nat.sub_le _ _))
    · exact le_refl _

theorem length_extractPathAndQuery_le (url : Bytes) :
    (extractPathAndQuery url).path.length ≤ url.length ∧
      ((extractPathAndQuery url).hasQuery = true →
      (extractPathAndQuery url).path.length + 1 + (extractPathAndQuery url).query.length ≤
        url.length) := by
  have hle : (url.takeWhile (· ≠ ch '#')).length ≤ url.length := (takeWhile_sublist _).length_le
  unfold extractPathAndQuery
  simp only
  generalize url.takeWhile (· ≠ ch '#') = t at hle
  cases hfind : find (lit "?") t with
  | none => exact ⟨hle, nofun⟩
  | some i =>
    have hlen := congrArg List.length (find_byte_eq_some hfind).1
    rw [length_append, length_cons] at hlen
    dsimp only
    exact ⟨by omega, fun _ => by omega⟩

/-- The length of joined texts. -/
theorem length_intercalate (c : UInt8) {ts : List Bytes} (h : ts ≠ []) :
    ([c].intercalate ts).length + 1 = (ts.map (·.length + 1)).sum := by
  induction ts with
  | nil => exact absurd rfl h
  | cons t ts ih =>
    cases ts with
    | nil => simp
    | cons u ts =>
      have hrest := ih (cons_ne_nil u ts)
      rw [intercalate_cons_cons, map_cons, sum_cons, ← hrest]
      simp
      omega

theorem sum_length_splitOn (c : UInt8) (s : Bytes) :
    ((s.splitOn c).map (·.length + 1)).sum = s.length + 1 := by
  rw [← length_intercalate c (splitOn_ne_nil c s), intercalate_splitOn]

/-- The texts of the parameters of a query are among its pieces. -/
theorem map_text_parseQueryParams (q : Bytes) :
    (parseQueryParams q).map QueryParam.text = (q.splitOn (ch '&')).filter (· ≠ []) := by
  unfold parseQueryParams
  rw [map_map]
  conv_rhs => rw [← map_id ((q.splitOn (ch '&')).filter (· ≠ []))]
  refine map_congr_left fun s hs => ?_
  obtain ⟨hs, hne⟩ := mem_filter.1 hs
  exact (parsed_parseParam (of_decide_eq_true hne) (not_mem_of_mem_splitOn hs)).2

/-- Nor does cooking the parameters. -/
theorem length_cooked_le (sort : StdSort) (config : UrlNormalizationConfig) (q : Bytes) :
    ((cookParams sort config (parseQueryParams q)).map (·.text.length + 1)).sum ≤ q.length + 1 := by
  calc ((cookParams sort config (parseQueryParams q)).map (·.text.length + 1)).sum
      ≤ ((parseQueryParams q).map (·.text.length + 1)).sum := sum_cook_le sort config _ _
    _ = (((q.splitOn (ch '&')).filter (· ≠ [])).map (·.length + 1)).sum := by
        rw [← map_text_parseQueryParams, map_map]
        rfl
    _ ≤ ((q.splitOn (ch '&')).map (·.length + 1)).sum :=
        (filter_sublist.map _).sum_le_sum fun _ _ => Nat.zero_le _
    _ = q.length + 1 := sum_length_splitOn _ _

/-- Nor does the whole of it. -/
theorem length_normalizeCacheUrl_le (sort : StdSort) (url : Bytes)
    (config : UrlNormalizationConfig) :
    (normalizeCacheUrl sort url config).length ≤ url.length := by
  have hurl := length_extractSchemeAndAuthority_le url
  obtain ⟨hpath, hquery⟩ := length_extractPathAndQuery_le (extractSchemeAndAuthority url)
  unfold normalizeCacheUrl
  simp only
  generalize extractPathAndQuery (extractSchemeAndAuthority url) = split at hpath hquery
  have hnormal := length_normalize_le split.path
  split_ifs with hq hstrip
  · omega
  · omega
  · have hq := hquery (by simpa using hq)
    have hcooked := length_cooked_le sort config (normalizePercentEncoding split.query)
    have hnormalQuery := length_normalize_le split.query
    unfold reassemble
    split
    · omega
    · rename_i hne
      have htexts :
        (cookParams sort config (parseQueryParams (normalizePercentEncoding split.query))).map
          text ≠ [] := by simpa using hne
      have hjoin := length_intercalate (ch '&') htexts
      rw [map_map, Function.comp_def] at hjoin
      rw [length_append, length_cons]
      omega

/-- **Where the normaliser is idempotent and honest**: exactly on stable urls, and for paths
of one normal form exactly when their stray percent signs stand in the same places. -/
theorem normalizeCacheUrl_idempotent_honest (sort : StdSort) (config : UrlNormalizationConfig) :
    (∀ url, normalizeCacheUrl sort (normalizeCacheUrl sort url config) config =
        normalizeCacheUrl sort url config ↔
      Stable config (extractPathAndQuery (extractSchemeAndAuthority url))) ∧
    ∀ v w, PathOnly v → PathOnly w →
      normalizeCacheUrl sort v config = normalizeCacheUrl sort w config →
      (percentDecode v = percentDecode w ↔ marks (pieces v) = marks (pieces w)) :=
  ⟨normalizeCacheUrl_fixed_iff, fun _ _ hv hw h => decode_eq_iff_of_normal_forms_eq hv hw h⟩

/-- Two spellings of one path, one of them escaped. -/
theorem normalizeCacheUrl_idempotent_honest_tilde :
    percentDecode (lit "/%7euser") = percentDecode (lit "/~user") := by
  have hpath : ∀ s : Bytes, s.head? = some (ch '/') → ch '#' ∉ s → ch '?' ∉ s → PathOnly s :=
    fun s hs hh hq => ⟨not_schemed_of_head hs, hh, hq⟩
  have h := (normalizeCacheUrl_idempotent_honest StdSort.merge {}).2 (lit "/%7euser") (lit "/~user")
    (hpath _ rfl (by decide) (by decide)) (hpath _ rfl (by decide) (by decide)) (by decide)
  exact h.2 (by decide)

/-- A stray percent sign is completed by the escapes after it, so that a second run decodes
once more, and two spellings of one normal form decode to different bytes. -/
theorem normalizeCacheUrl_assembles_escape :
    normalizeCacheUrl StdSort.merge (lit "/%%34%31") {} = lit "/%41" ∧
    normalizeCacheUrl StdSort.merge (lit "/%41") {} = lit "/A" ∧
    normalizeCacheUrl StdSort.merge (lit "/%%32541") {} =
      normalizeCacheUrl StdSort.merge (lit "/%2541") {} ∧
    percentDecode (lit "/%%32541") ≠ percentDecode (lit "/%2541") := by
  refine ⟨?_, ?_, ?_, ?_⟩ <;> decide

end PageSpeed
