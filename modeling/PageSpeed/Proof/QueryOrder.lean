import PageSpeed.Proof.UrlNormalizer

/-!
# The order of the query parameters

Sort and dedup do not look at the equals sign, so of `a` and `a=` one is dropped, and which one is
up to the sort.

* `mem_cooked_iff`: without such a pair the result has the parameters of the query.
* `normalizeCacheUrl_params_iff`: exactly then they are all there and their order makes no
  difference.
-/

namespace PageSpeed

open Wire Choice

/-- A path of a url, as far as its question mark. -/
structure UrlPath where
  text : Bytes
  rooted : text.head? = some (ch '/')
  plain : ch '?' ∉ text ∧ ch '#' ∉ text

/-- A query, which a fragment would end. -/
abbrev UrlQuery := { query : Bytes // ch '#' ∉ query }

/-- The parameters that are not stripped, with their percent signs normalised. -/
def normParams (config : UrlNormalizationConfig) (query : Bytes) : List QueryParam :=
  (keptParams config query).map QueryParam.norm

/-- No two parameters differ only in an equals sign. -/
def Untied (params : List QueryParam) : Prop :=
  ∀ p ∈ params, ∀ q ∈ params, p.key = q.key → p.value = q.value → p = q

/-- The same parameters in another order. -/
def SameParams (q q' : Bytes) : Prop :=
  ((q.splitOn (ch '&')).filter (· ≠ [])).Perm ((q'.splitOn (ch '&')).filter (· ≠ []))

variable {sort : StdSort} {config : UrlNormalizationConfig} {query query' : Bytes} {p : QueryParam}

/-- The normalised parameters are the same in another order. -/
theorem SameParams.normParams (h : SameParams query query') :
    (normParams config query).Perm (normParams config query') :=
  ((h.map parseParam).filter _).map _

/-- Without ties no parameter is dropped. -/
theorem mem_cooked_iff (h : Untied (normParams config query)) : p ∈ cookedParams sort config query ↔
    p ∈ normParams config query := by
  have hmem : ∀ {p}, p ∈ cookedParams sort config query → p ∈ normParams config query := by
    intro p hp
    obtain ⟨a, ha, rfl⟩ := exists_kept hp
    exact List.mem_map_of_mem ha
  refine ⟨hmem, fun hp => ?_⟩
  obtain ⟨a, ha, rfl⟩ := List.mem_map.1 hp
  obtain ⟨q, hq, hrank⟩ := exists_cooked sort ha
  obtain ⟨hkey, hvalue⟩ := rank_eq_iff.1 hrank
  exact h q (hmem hq) _ hp hkey hvalue ▸ hq

/-- And their order makes no difference. -/
theorem cooked_congr (h : Untied (normParams config query)) (hsame : SameParams query' query) :
    cookedParams sort config query' = cookedParams sort config query := by
  have hperm : (normParams config query').Perm (normParams config query) := hsame.normParams
  have h' : Untied (normParams config query') :=
    fun p hp q hq => h p (hperm.subset hp) q (hperm.subset hq)
  have hnodup : ∀ q, (cookedParams sort config q).Nodup :=
    fun q => pairwise_cooked.imp fun hlt heq => hlt.ne (congrArg _ heq)
  refine eq_of_perm_of_sorted ?_ (pairwise_cooked.imp le_of_lt) pairwise_cooked
  refine (List.perm_ext_iff_of_nodup (hnodup _) (hnodup _)).2 fun p => ?_
  rw [mem_cooked_iff h', mem_cooked_iff h, hperm.mem_iff]

/-- **The order of the parameters makes no difference, and all of them are kept**, exactly if no two
of them differ only in an equals sign, and none has to go because of the path's extension. -/
theorem normalizeCacheUrl_params_iff (sort : StdSort) (config : UrlNormalizationConfig)
    (path : UrlPath) (query : UrlQuery) :
    (∀ query' : UrlQuery, SameParams query' query →
      normalizeCacheUrl sort (path.text ++ ch '?' :: query') config =
        normalizeCacheUrl sort (path.text ++ ch '?' :: query) config) ∧
      (∃ params : List QueryParam, params.Nodup ∧ (∀ p, p ∈ params ↔ p ∈ normParams config query) ∧
        normalizeCacheUrl sort (path.text ++ ch '?' :: query) config =
          reassemble (normalizePercentEncoding path.text) params) ↔
    Untied (normParams config query) ∧
      (stripsQuery config (normalizePercentEncoding path.text) → normParams config query = []) := by
  generalize hstrips : stripsQuery config (normalizePercentEncoding path.text) = strips
  -- what a call returns, as a function of the parameters alone
  have hurl (q : UrlQuery) : normalizeCacheUrl sort (path.text ++ ch '?' :: q) config =
      reassemble (normalizePercentEncoding path.text)
        (if strips then [] else cookedParams sort config q) := by
    have hread : extractPathAndQuery (extractSchemeAndAuthority (path.text ++ ch '?' :: q)) =
        ⟨path.text, q, true⟩ := by
      rw [extract_of_not_schemed
        (not_schemed_of_head (by rw [List.head?_append, path.rooted]; rfl)),
        extractPathAndQuery_split path.plain.2 q.2 path.plain.1]
    cases strips with
    | true =>
      exact normalizeCacheUrl_of_not_readsQuery hread fun hr => by simp [ReadsQuery, hstrips] at hr
    | false => exact normalizeCacheUrl_of_readsQuery hread ⟨rfl, hstrips⟩
  have hsorted : (if strips then [] else cookedParams sort config query).Pairwise fun a b =>
      a.rank < b.rank := by
    cases strips <;> simp [pairwise_cooked]
  constructor
  · -- the parameters of the result are strictly sorted, so that no two of them tie
    rintro ⟨-, params, -, hparams, hresult⟩
    have hpath : ch '?' ∉ normalizePercentEncoding path.text := by
      rw [mem_normalize_iff reserved_delims.2.1]
      exact path.plain.1
    have hparsed : ∀ p ∈ params, p.Parsed := by
      intro p hp
      obtain ⟨a, ha, rfl⟩ := List.mem_map.1 ((hparams p).1 hp)
      exact (parsed_of_mem (List.mem_of_mem_filter ha)).norm
    have hout : ∀ p ∈ (if strips then [] else cookedParams sort config query), p.Parsed := by
      cases strips with
      | true => simp
      | false => exact fun p hp => parsed_of_mem_cooked hp
    rw [hurl, reassemble_inj hpath hpath hout hparsed] at hresult
    rw [hresult.2] at hsorted
    refine ⟨fun p hp q hq hkey hvalue => ?_, fun hs => ?_⟩
    · exact eq_of_rank_eq hsorted ((hparams p).2 hp) ((hparams q).2 hq)
        (rank_eq_iff.2 ⟨hkey, hvalue⟩)
    · refine List.eq_nil_iff_forall_not_mem.2 fun p hp => ?_
      rw [← hparams, ← hresult.2, if_pos hs] at hp
      cases hp
  · rintro ⟨huntied, hnone⟩
    refine ⟨fun query' hsame => by rw [hurl, hurl, cooked_congr huntied hsame], _, ?_,
      fun p => ?_, hurl query⟩
    · exact hsorted.imp fun hlt heq => hlt.ne (congrArg _ heq)
    · cases strips with
      | true => rw [hnone rfl, if_pos rfl]
      | false => exact mem_cooked_iff huntied

/-- The path `/s`. -/
def searchPath : UrlPath where
  text := lit "/s"
  rooted := by decide
  plain := by decide

/-- Two parameters in either order. -/
theorem normalizeCacheUrl_params_iff_swap :
    normalizeCacheUrl StdSort.merge (lit "/s?a=1&b=2") {} =
      normalizeCacheUrl StdSort.merge (lit "/s?b=2&a=1") {} := by
  have hiff := normalizeCacheUrl_params_iff StdSort.merge {} searchPath ⟨lit "b=2&a=1", by decide⟩
  exact (hiff.2 ⟨by unfold Untied; decide, by decide⟩).1 ⟨lit "a=1&b=2", by decide⟩
    (by unfold SameParams; decide)

/-- The result has the equals sign or not, as the query has the one or the other parameter first. -/
theorem normalizeCacheUrl_orders : SameParams (lit "a&a=") (lit "a=&a") ∧
    normalizeCacheUrl StdSort.merge (lit "/?a&a=") {} = lit "/?a" ∧
    normalizeCacheUrl StdSort.merge (lit "/?a=&a") {} = lit "/?a=" := by
  have hrun : ∀ b, StdSort.merge.run [⟨lit "a", [], b⟩, ⟨lit "a", [], !b⟩] =
      [⟨lit "a", [], b⟩, ⟨lit "a", [], !b⟩] :=
    fun b => List.mergeSort_of_pairwise (by cases b <;> decide)
  have hurl : ∀ b, reassemble (lit "/")
    ((StdSort.merge.run [⟨lit "a", [], b⟩, ⟨lit "a", [], !b⟩]).destutter
      fun a b => paramSame a b = false) = if b then lit "/?a=" else lit "/?a" := by
    intro b
    rw [hrun]
    cases b <;> decide
  exact ⟨by unfold SameParams; decide, hurl false, hurl true⟩

end PageSpeed
