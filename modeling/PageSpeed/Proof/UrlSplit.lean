import PageSpeed.Proof.PercentSplit
import PageSpeed.Wire.Split

/-!
# Taking cache urls apart

* `extract_of_not_schemed`, `head?_extract`: the scheme is stripped exactly when the first
  slash of the url stands in "://", and then a path is left.
* `extractPathAndQuery_split`: path and query of a composed url.
* `parseQueryParams_join`, `parseQueryParams_normalize`: reading parameters back, and
  reading them after percent-encoding was normalised.
-/

namespace PageSpeed

open Wire List QueryParam

/-! ## Scheme and authority -/

/-- The first slash stands in "://". -/
def Schemed (s : Bytes) : Prop :=
  ∃ a b, s = a ++ ch ':' :: ch '/' :: ch '/' :: b ∧ ch '/' ∉ a

/-- A path has no scheme. -/
theorem not_schemed_of_head {s : Bytes} (h : s.head? = some (ch '/')) : ¬ Schemed s := by
  rintro ⟨a, b, rfl, ha⟩
  cases a with
  | nil => exact absurd h (by rw [nil_append, head?_cons]; decide)
  | cons c a =>
    rw [cons_append, head?_cons, Option.some.injEq] at h
    exact ha (by simp [h])

/-- "://" cannot straddle any other byte. -/
theorem schemed_append_iff {c : UInt8} (h1 : c ≠ ch ':') (h2 : c ≠ ch '/') (a b : Bytes) :
    Schemed (a ++ c :: b) ↔ Schemed a ∨ ch '/' ∉ a ∧ Schemed b := by
  constructor
  · rintro ⟨x, y, hxy, hx⟩
    by_cases ha : ch '/' ∈ a
    · left
      obtain ⟨p, q, rfl, hp⟩ := eq_append_cons_of_mem ha
      have hxc : ch '/' ∉ x ++ [ch ':'] := by
        rw [mem_append]
        rintro (h | h)
        · exact hx h
        · exact absurd (mem_singleton.1 h) (by decide)
      have hsplit : p ++ ch '/' :: (q ++ c :: b) = (x ++ [ch ':']) ++ ch '/' :: (ch '/' :: y) := by
        rw [append_assoc] at hxy ⊢
        exact hxy
      obtain ⟨rfl, hq⟩ := until_inj hp hxc rfl rfl hsplit
      rw [cons.injEq] at hq
      cases q with
      | nil => exact absurd (cons.inj hq.2).1 h2
      | cons d q =>
        rw [cons_append, cons.injEq] at hq
        exact ⟨x, q, by rw [hq.2.1, append_assoc]; rfl, hx⟩
    · right
      refine ⟨ha, ?_⟩
      -- the delimiter stands before the first slash, so in front of the colon
      rcases append_eq_append_iff.1 hxy with ⟨t, ht, hcb⟩ | ⟨t, ht, hcb⟩
      · cases t with
        | nil => exact absurd (cons.inj hcb).1 h1
        | cons d t =>
          rw [cons_append, cons.injEq] at hcb
          refine ⟨t, y, hcb.2, fun ht' => hx ?_⟩
          rw [ht]
          simp [ht']
      · cases t with
        | nil => exact absurd (cons.inj hcb).1.symm h1
        | cons d t =>
          refine absurd ?_ ha
          rw [cons_append, cons.injEq] at hcb
          cases t with
          | nil => exact absurd (cons.inj hcb.2).1.symm h2
          | cons e t =>
            rw [cons_append, cons.injEq] at hcb
            rw [ht, hcb.2.1]
            simp
  · rintro (⟨x, y, rfl, hx⟩ | ⟨ha, x, y, rfl, hx⟩)
    · exact ⟨x, y ++ c :: b, by simp, hx⟩
    · refine ⟨a ++ c :: x, y, by simp, ?_⟩
      simp [ha, hx, h2.symm]

theorem Schemed.append {a : Bytes} (h : Schemed a) (b : Bytes) : Schemed (a ++ b) := by
  obtain ⟨x, y, rfl, hx⟩ := h
  exact ⟨x, y ++ b, by simp, hx⟩

variable {url : Bytes}

/-- Nothing is stripped unless the first slash stands in "://". -/
theorem extract_of_not_schemed (h : ¬ Schemed url) : extractSchemeAndAuthority url = url := by
  unfold extractSchemeAndAuthority
  cases hf : find (lit "://") url with
  | none => rfl
  | some i =>
    obtain ⟨b, hb⟩ := (find_spec hf).1
    have hurl : url = url.take i ++ ch ':' :: ch '/' :: ch '/' :: b := by
      conv_lhs => rw [← take_append_drop i url, ← hb]
      rfl
    have hmem : ch '/' ∈ url.take i := by
      by_contra hn
      exact h ⟨url.take i, b, hurl, hn⟩
    obtain ⟨x, y, hxy, hx⟩ := eq_append_cons_of_mem hmem
    have hslash : find (lit "/") url = some x.length := by
      rw [hurl, hxy, append_assoc]
      exact find_byte hx
    have hlt : ¬ i < x.length := by
      have h1 := congrArg List.length hxy
      rw [length_take, length_append, length_cons] at h1
      omega
    simp only [hslash, Option.all_some, hlt, decide_false, Bool.false_eq_true, if_false]

/-- What is left after stripping is a path. -/
theorem head?_extract (h : Schemed url) :
    (extractSchemeAndAuthority url).head? = some (ch '/') := by
  obtain ⟨a, b, rfl, ha⟩ := h
  have hslash : find (lit "/") (a ++ ch ':' :: ch '/' :: ch '/' :: b) = some (a.length + 1) := by
    have hac : ch '/' ∉ a ++ [ch ':'] := by
      rw [mem_append, mem_singleton, not_or]
      exact ⟨ha, by decide⟩
    have := find_byte (b := ch '/' :: b) hac
    rwa [append_assoc, length_append, length_singleton] at this
  have hocc : lit "://" <+: (a ++ ch ':' :: ch '/' :: ch '/' :: b).drop a.length := by
    rw [drop_left]; exact ⟨b, rfl⟩
  obtain ⟨i, hi, hf⟩ := find_of_occurs hocc (by decide)
  unfold extractSchemeAndAuthority
  simp only [hslash, hf, Option.all_some, show i < a.length + 1 by omega, decide_true, if_true]
  cases hg : findFrom (lit "/") (a ++ ch ':' :: ch '/' :: ch '/' :: b) (i + 3) with
  | none => rfl
  | some e =>
    obtain ⟨k, hk, rfl⟩ := Option.map_eq_some_iff.1 hg
    obtain ⟨t, ht⟩ := (find_spec hk).1
    rw [drop_drop, Nat.add_comm] at ht
    dsimp only
    rw [← ht]
    rfl

/-- Once the scheme is cut off there is none. -/
theorem not_schemed_extract (url : Bytes) : ¬ Schemed (extractSchemeAndAuthority url) := by
  by_cases h : Schemed url
  · exact not_schemed_of_head (head?_extract h)
  · rw [extract_of_not_schemed h]; exact h

/-- Percent-encoding does not touch the scheme's delimiter. -/
theorem schemed_normalize_iff (s : Bytes) : Schemed (normalizePercentEncoding s) ↔ Schemed s := by
  obtain ⟨-, -, -, -, rslash, rcolon⟩ := reserved_delims
  constructor
  · rintro ⟨a, b, h, ha⟩
    obtain ⟨a', b', rfl, rfl, hb⟩ := normalize_split rcolon h
    obtain ⟨c', d', rfl, hc, hd⟩ := normalize_split rslash (x := []) hb
    obtain ⟨e', f', rfl, he, -⟩ := normalize_split rslash (x := []) hd
    rw [mem_normalize_iff rslash] at ha
    rw [normalize_eq_nil_iff.1 hc, normalize_eq_nil_iff.1 he]
    exact ⟨a', f', rfl, ha⟩
  · rintro ⟨a, b, rfl, ha⟩
    refine ⟨normalizePercentEncoding a, normalizePercentEncoding b, ?_, ?_⟩
    · rw [normalize_append rcolon]
      have h2 := normalize_append rslash [] (ch '/' :: b)
      have h3 := normalize_append rslash [] b
      simp only [nil_append] at h2 h3
      rw [h2, h3]
      rfl
    · rwa [mem_normalize_iff rslash]

/-! ## Path and query -/

/-- A url without question mark or fragment is its own path. -/
theorem extractPathAndQuery_path {p : Bytes} (hh : ch '#' ∉ p) (hq : ch '?' ∉ p) :
    extractPathAndQuery p = { path := p, hasQuery := false } := by
  unfold extractPathAndQuery
  simp only [takeWhile_ne_of_not_mem hh]
  rw [show find (lit "?") p = none from find_byte_none hq]

/-- **Path and query of a composed url.** -/
theorem extractPathAndQuery_split {p q : Bytes} (hp : ch '#' ∉ p) (hq : ch '#' ∉ q)
    (hpq : ch '?' ∉ p) : extractPathAndQuery (p ++ ch '?' :: q) = ⟨p, q, true⟩ := by
  have hh : ch '#' ∉ p ++ ch '?' :: q := by
    rw [mem_append, mem_cons, not_or, not_or]
    exact ⟨hp, by decide, hq⟩
  unfold extractPathAndQuery
  simp only [takeWhile_ne_of_not_mem hh]
  rw [show find (lit "?") (p ++ ch '?' :: q) = some p.length from find_byte hpq]
  simp

/-- What a split url looks like. -/
structure SplitOf (url : Bytes) (s : PathAndQuery) : Prop where
  hash_path : ch '#' ∉ s.path
  qmark_path : ch '?' ∉ s.path
  hash_query : ch '#' ∉ s.query
  path : s.path <+: url

/-- What `extractPathAndQuery` returns is a split of the URL. -/
theorem splitOf_extract (url : Bytes) : SplitOf url (extractPathAndQuery url) := by
  have hh := not_mem_takeWhile_ne (ch '#') url
  have hpre : url.takeWhile (· ≠ ch '#') <+: url := ⟨_, takeWhile_append_dropWhile⟩
  unfold extractPathAndQuery
  simp only
  generalize url.takeWhile (· ≠ ch '#') = t at hh hpre
  by_cases hq : ch '?' ∈ t
  · obtain ⟨a, b, rfl, ha⟩ := eq_append_cons_of_mem hq
    rw [show find (lit "?") (a ++ ch '?' :: b) = some a.length from find_byte ha]
    rw [mem_append, mem_cons, not_or, not_or] at hh
    have hdrop : (a ++ ch '?' :: b).drop (a.length + 1) = b := by simp
    simp only [take_left, hdrop]
    exact ⟨hh.1, ha, hh.2.2, (prefix_append a _).trans hpre⟩
  · rw [show find (lit "?") t = none from find_byte_none hq]
    exact ⟨hh, hq, by simp, hpre⟩

/-- A path starts where the URL does. -/
theorem head?_path (h : url.head? = some (ch '/')) :
    (extractPathAndQuery url).path.head? = some (ch '/') := by
  obtain ⟨t, rfl⟩ := head?_eq_some_iff.1 h
  unfold extractPathAndQuery
  simp only
  rw [takeWhile_cons_of_pos (by decide), find,
    if_neg (show ¬ lit "?" <+: ch '/' :: _ from fun hp =>
      absurd (cons_prefix_cons.1 hp).1 (by decide))]
  cases find (lit "?") (t.takeWhile (· ≠ ch '#')) with
  | none => rfl
  | some i => rfl

/-! ## Parameters -/

/-- The shape of a parsed parameter. -/
structure QueryParam.Parsed (p : QueryParam) : Prop where
  amp_key : ch '&' ∉ p.key
  amp_value : ch '&' ∉ p.value
  eq_key : ch '=' ∉ p.key
  bare : p.hasEquals = false → p.value = [] ∧ p.key ≠ []

variable {p : QueryParam}

theorem QueryParam.Parsed.text_ne_nil (h : p.Parsed) : p.text ≠ [] := by
  unfold text
  cases he : p.hasEquals with
  | true => simp
  | false => simpa using (h.bare he).2

/-- A parameter has no ampersand. -/
theorem QueryParam.Parsed.amp_text (h : p.Parsed) : ch '&' ∉ p.text := by
  unfold text
  cases he : p.hasEquals with
  | true =>
    simp only [if_true, mem_append, mem_cons, not_or]
    exact ⟨h.amp_key, by decide, h.amp_value⟩
  | false => simpa using h.amp_key

/-- A parameter is read back. -/
theorem parseParam_text (h : p.Parsed) : parseParam p.text = p := by
  obtain ⟨key, value, hasEquals⟩ := p
  unfold parseParam text
  cases hasEquals with
  | true =>
    simp only [if_true]
    rw [show find (lit "=") (key ++ ch '=' :: value) = some key.length from find_byte h.eq_key]
    simp
  | false =>
    obtain rfl : value = [] := (h.bare rfl).1
    simp only [Bool.false_eq_true, if_false, append_nil]
    rw [show find (lit "=") key = none from find_byte_none h.eq_key]

/-- What is read is a parameter, and its text is unchanged. -/
theorem parsed_parseParam {s : Bytes} (hne : s ≠ []) (ha : ch '&' ∉ s) :
    (parseParam s).Parsed ∧ (parseParam s).text = s := by
  by_cases he : ch '=' ∈ s
  · obtain ⟨a, b, rfl, haa⟩ := eq_append_cons_of_mem he
    have hp : parseParam (a ++ ch '=' :: b) = ⟨a, b, true⟩ := by
      unfold parseParam
      rw [show find (lit "=") (a ++ ch '=' :: b) = some a.length from find_byte haa]
      simp
    rw [mem_append, mem_cons, not_or, not_or] at ha
    rw [hp]
    exact ⟨⟨ha.1, ha.2.2, haa, fun h => by cases h⟩, rfl⟩
  · have hp : parseParam s = ⟨s, [], false⟩ := by
      unfold parseParam
      rw [show find (lit "=") s = none from find_byte_none he]
    rw [hp]
    exact ⟨⟨ha, by simp, he, fun _ => ⟨rfl, hne⟩⟩, by simp [text]⟩

/-- Percent-encoding commutes with the split at a delimiter. -/
theorem splitOn_normalize {c : UInt8} (hc : Reserved c) (s : Bytes) :
    (normalizePercentEncoding s).splitOn c = (s.splitOn c).map normalizePercentEncoding := by
  induction s using splitOn_induction (c := c) with
  | hlast s hs =>
    rw [splitOn_eq_singleton hs, splitOn_eq_singleton (by rwa [mem_normalize_iff hc])]
    rfl
  | hcons a b ha ih =>
    rw [normalize_append hc, splitOn_append_cons_self_of_not_mem ha, map_cons, ← ih,
      splitOn_append_cons_self_of_not_mem (by rwa [mem_normalize_iff hc])]

theorem parsed_of_mem {q : Bytes} (h : p ∈ parseQueryParams q) : p.Parsed := by
  unfold parseQueryParams at h
  obtain ⟨s, hs, rfl⟩ := mem_map.1 h
  obtain ⟨hs, hne⟩ := mem_filter.1 hs
  exact (parsed_parseParam (of_decide_eq_true hne) (not_mem_of_mem_splitOn hs)).1

/-- **Joined parameters are read back.** -/
theorem parseQueryParams_join {ps : List QueryParam} (h : ∀ p ∈ ps, p.Parsed) (hne : ps ≠ []) :
    parseQueryParams ([ch '&'].intercalate (ps.map QueryParam.text)) = ps := by
  have hamp : ∀ t ∈ ps.map text, ch '&' ∉ t := by
    intro t ht
    obtain ⟨p, hp, rfl⟩ := mem_map.1 ht
    exact (h p hp).amp_text
  have hnil : ∀ t ∈ ps.map text, decide (t ≠ []) = true := by
    intro t ht
    obtain ⟨p, hp, rfl⟩ := mem_map.1 ht
    exact decide_eq_true (h p hp).text_ne_nil
  unfold parseQueryParams
  rw [splitOn_intercalate _ hamp (by simpa using hne), filter_eq_self.2 hnil, map_map]
  calc ps.map (parseParam ∘ text) = ps.map id :=
        map_congr_left fun p hp => parseParam_text (h p hp)
    _ = ps := map_id ps

/-- A parameter with its percent-encoding normalised. -/
def QueryParam.norm (p : QueryParam) : QueryParam :=
  ⟨normalizePercentEncoding p.key, normalizePercentEncoding p.value, p.hasEquals⟩

/-- A normalised parameter is one. -/
theorem QueryParam.Parsed.norm (h : p.Parsed) : p.norm.Parsed := by
  obtain ⟨-, -, ramp, req, -, -⟩ := reserved_delims
  refine ⟨?_, ?_, ?_, fun he => ?_⟩
  · rw [QueryParam.norm, mem_normalize_iff ramp]; exact h.amp_key
  · rw [QueryParam.norm, mem_normalize_iff ramp]; exact h.amp_value
  · rw [QueryParam.norm, mem_normalize_iff req]; exact h.eq_key
  · obtain ⟨hv, hk⟩ := h.bare he
    refine ⟨?_, ?_⟩
    · rw [QueryParam.norm, normalize_eq_nil_iff]; exact hv
    · rw [QueryParam.norm, ne_eq, normalize_eq_nil_iff]; exact hk

/-- Normalising the text normalises the parts. -/
theorem normalize_text (p : QueryParam) : normalizePercentEncoding p.text = p.norm.text := by
  obtain ⟨-, -, -, req, -, -⟩ := reserved_delims
  unfold QueryParam.text QueryParam.norm
  cases p.hasEquals with
  | true => simp only [if_true]; exact normalize_append req _ _
  | false => simp

/-- And reading commutes with it. -/
theorem parseParam_normalize {s : Bytes} (hne : s ≠ []) (ha : ch '&' ∉ s) :
    parseParam (normalizePercentEncoding s) = (parseParam s).norm := by
  obtain ⟨hp, ht⟩ := parsed_parseParam hne ha
  conv_lhs => rw [← ht]
  rw [normalize_text, parseParam_text hp.norm]

/-- **Reading parameters commutes with percent-encoding.** -/
theorem parseQueryParams_normalize (q : Bytes) :
    parseQueryParams (normalizePercentEncoding q) = (parseQueryParams q).map QueryParam.norm := by
  obtain ⟨-, -, ramp, -, -, -⟩ := reserved_delims
  unfold parseQueryParams
  have hfilter : ((fun t : Bytes => decide (t ≠ [])) ∘ normalizePercentEncoding) =
      fun t => decide (t ≠ []) := by
    funext t
    simp only [Function.comp_apply, ne_eq, normalize_eq_nil_iff]
  rw [splitOn_normalize ramp, filter_map, hfilter, map_map, map_map]
  refine map_congr_left fun t ht => ?_
  obtain ⟨ht, hne⟩ := mem_filter.1 ht
  exact parseParam_normalize (of_decide_eq_true hne) (not_mem_of_mem_splitOn ht)

end PageSpeed
