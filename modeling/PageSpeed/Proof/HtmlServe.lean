import PageSpeed.Spec.HtmlCachePolicy

/-!
# The serve decision

* `served_iff`: when a stored page is served, as one condition.
* `classifyHtmlForServe_mono`: a riskier request for a worse entry is served only what the
  milder one is served.
-/

namespace PageSpeed.Cache

/-- The answer is the stored page, or its Markdown copy. -/
def HtmlServeVerdict.served (v : HtmlServeVerdict) : Prop :=
  v.action = .serveHtml ∨ v.action = .serveMarkdown

theorem served_mk (a : HtmlServeAction) (reason : HtmlServeReason) (e : Bool) (age : ℕ) :
    (⟨a, reason, e, age⟩ : HtmlServeVerdict).served ↔ a = .serveHtml ∨ a = .serveMarkdown := Iff.rfl

/-- When a stored page is served, condition by condition. -/
theorem served_iff (r : HtmlServeRequest) (s : StoredHtmlFacts) :
    (classifyHtmlForServe r s).served ↔
      (r.mode = .serveCachedHtml ∨ r.mode = .serveVariants ∧ r.wantsMarkdown) ∧ s.present ∧
      ¬ (r.hasAuthorization ∨ r.authenticatedUser) ∧ (r.hasCookie → s.explicitShared) ∧
      ¬ r.cacheControlNoCache ∧ (r.pragmaNoCache → r.hasCacheControl) ∧ ¬ s.purged ∧
      ¬ s.headersNotReproducible ∧ (s.sidecarRequired → s.sidecarPresent) ∧
      (isFresh r s (servedAge r s) ∨ r.mode = .serveCachedHtml ∧ s.validatedThisRequest) ∧
      (r.wantsMarkdown → s.variantPresent ∧ s.bindingLive ∧ servedAge r s < s.renderTtlS ∧
        (r.mode = .serveCachedHtml ∧ s.validatedThisRequest ∨ servedAge r s < s.lifetimeS)) := by
  simp only [classifyHtmlForServe, apply_ite HtmlServeVerdict.served, served_mk]
  cases r.mode <;> cases r.wantsMarkdown <;> simp
  all_goals grind

/-- `r'` is at least as restrictive as `r`. -/
structure Riskier (r r' : HtmlServeRequest) : Prop where
  same : r'.mode = r.mode ∧ r'.wantsMarkdown = r.wantsMarkdown ∧
    r'.pragmaNoCache = r.pragmaNoCache ∧ r'.hasCacheControl = r.hasCacheControl
  authorization : r.hasAuthorization → r'.hasAuthorization
  user : r.authenticatedUser → r'.authenticatedUser
  cookie : r.hasCookie → r'.hasCookie
  noCache : r.cacheControlNoCache → r'.cacheControlNoCache
  maxAge : r'.maxAge = r.maxAge ∨ 0 ≤ r'.maxAge ∧ (0 ≤ r.maxAge → r'.maxAge ≤ r.maxAge)
  minFresh : r.minFresh ≤ r'.minFresh
  later : r.nowSeconds ≤ r'.nowSeconds

/-- `s'` is `s`, but possibly purged, without its block, shorter-lived, to be validated or
without its binding. -/
structure Worse (s s' : StoredHtmlFacts) : Prop where
  same : s' = { s with
    purged := s'.purged, sidecarPresent := s'.sidecarPresent, lifetimeS := s'.lifetimeS
    needsValidation := s'.needsValidation, bindingLive := s'.bindingLive, renderTtlS :=
      s'.renderTtlS }
  purged : s.purged → s'.purged
  sidecar : s'.sidecarPresent → s.sidecarPresent
  lifetime : s'.lifetimeS ≤ s.lifetimeS
  needsValidation : s.needsValidation → s'.needsValidation
  binding : s'.bindingLive → s.bindingLive
  renderTtl : s'.renderTtlS ≤ s.renderTtlS

section

variable {r r' : HtmlServeRequest} {s s' : StoredHtmlFacts} (hr : Riskier r r') (hs : Worse s s')

include hr hs

/-- The age grows with the time and with the age that the origin gave. -/
theorem servedAge_mono : servedAge r s ≤ servedAge r' s' := by
  have hl : (r.nowSeconds : ℤ) ≤ r'.nowSeconds := Int.ofNat_le.2 hr.later
  rw [hs.same]
  have hv :=
    add_le_add_right (max_le_max_left 0 (sub_le_sub_right hl s.storedAt)) (s.ageAtStore : ℤ)
  unfold servedAge saturateU32
  dsimp only
  split_ifs <;> omega

/-- What is fresh later was fresh before. -/
theorem isFresh_mono (h : isFresh r' s' (servedAge r' s')) : isFresh r s (servedAge r s) := by
  have := servedAge_mono hr hs
  have := hr.maxAge
  have := hr.minFresh
  have := hs.lifetime
  have := hs.needsValidation
  simp only [isFresh, decide_eq_true_eq] at h ⊢
  grind

end

/-- **Serving is monotone in risk**, and without a validation only what is fresh is served. -/
theorem classifyHtmlForServe_mono (r r' : HtmlServeRequest) (s s' : StoredHtmlFacts) :
    (Riskier r r' → Worse s s' → (classifyHtmlForServe r' s').served →
        (classifyHtmlForServe r s).served) ∧
      (s.validatedThisRequest = false → (classifyHtmlForServe r s).served →
        (classifyHtmlForServe r s).ageS < s.lifetimeS) := by
  constructor
  · intro hr hs
    have ha := servedAge_mono hr hs
    have hf := isFresh_mono hr hs
    obtain ⟨hm, hw, hp, hc⟩ := hr.same
    rw [served_iff, served_iff, hm, hw, hp, hc]
    rw [hs.same] at ha hf ⊢
    dsimp only
    rintro ⟨h1, h2, h3, h4, h5, h6, h7, h8, h9, h10, h11⟩
    refine ⟨h1, h2, mt (Or.imp hr.authorization hr.user) h3, h4 ∘ hr.cookie, mt hr.noCache h5, h6,
      mt hs.purged h7, h8, hs.sidecar ∘ h9, h10.imp_left hf, fun h => ?_⟩
    obtain ⟨hv, hb, ht, hl⟩ := h11 h
    exact ⟨hv, hs.binding hb, ha.trans_lt (ht.trans_le hs.renderTtl),
      hl.imp_right fun h => ha.trans_lt (h.trans_le hs.lifetime)⟩
  · intro hv h
    obtain ⟨h1, h2, -, -, -, -, -, -, -, h3, -⟩ := (served_iff r s).1 h
    have ha : (classifyHtmlForServe r s).ageS = servedAge r s := by
      simp only [classifyHtmlForServe, apply_ite HtmlServeVerdict.ageS]
      rcases h1 with h1 | ⟨h1, -⟩ <;> simp [h1, h2]
    obtain h3 | h3 := h3
    · simp only [isFresh, decide_eq_true_eq] at h3
      omega
    · simp [hv] at h3

/-- A page that a request with `min-fresh` gets ten seconds before it is stale, its block gone by
then, is what a plain request got before. -/
theorem classifyHtmlForServe_mono_minFresh :
    let request : HtmlServeRequest := { mode := .serveCachedHtml, nowSeconds := 100 }
    let stored : StoredHtmlFacts :=
      { present := true, storedAt := 90, lifetimeS := 600, sidecarPresent := true }
    (classifyHtmlForServe { request with minFresh := 10, nowSeconds := 670 }
      { stored with sidecarPresent := false }).served ∧
    (classifyHtmlForServe request stored).served ∧
      (classifyHtmlForServe request stored).ageS < 600 := by
  intro request stored
  have hworse : Worse stored { stored with sidecarPresent := false } := by
    constructor <;> first | rfl | exact id | exact le_rfl | exact nofun
  have hrisk : Riskier request { request with minFresh := 10, nowSeconds := 670 } := by
    constructor <;> first | exact ⟨rfl, rfl, rfl, rfl⟩ | exact id | exact .inl rfl | decide
  have hlate : (classifyHtmlForServe { request with minFresh := 10, nowSeconds := 670 }
      { stored with sidecarPresent := false }).served := .inl (by decide)
  have hmild := (classifyHtmlForServe_mono _ _ _ _).1 hrisk hworse hlate
  exact ⟨hlate, hmild, (classifyHtmlForServe_mono request request stored stored).2 rfl hmild⟩

end PageSpeed.Cache
