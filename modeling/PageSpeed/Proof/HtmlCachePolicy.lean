import PageSpeed.Choice.Dedup
import PageSpeed.Proof.CacheControl

/-!
# The store rules do not see the order of header lines

* `foldl_add`: the gate gathers from each line what the line alone gives.
* `Gate.Similar`, `Similar.settle`: what of the gathered does not depend on the order.
* `classifyHtmlForStore_perm`: lines in another order get the same verdict.
-/

namespace PageSpeed.Cache

open Wire List

/-! ## The gate -/

namespace Gate

/-- What a line alone gives. -/
def one (field : HeaderField) : Gate := ({} : Gate).add field

/-- Two gates, one after the other. -/
def join (g h : Gate) : Gate where
  carried := g.carried ++ h.carried
  combinedVary :=
    if h.sawVary then (if g.combinedVary ≠ [] then g.combinedVary ++ lit "," else g.combinedVary) ++
      h.combinedVary
    else g.combinedVary
  sawVary := g.sawVary || h.sawVary
  neverOptimized := g.neverOptimized || h.neverOptimized
  reasons := g.reasons ++ h.reasons

/-- A header is joined to what was gathered. -/
theorem add_eq_join (g : Gate) (field : HeaderField) : g.add field = g.join (one field) := by
  unfold one add join addVary addReason
  split_ifs <;> first | contradiction | simp [lit, ch]

theorem one_combinedVary (field : HeaderField) (h : (one field).sawVary = false) :
    (one field).combinedVary = [] := by
  unfold one add addVary addReason at h ⊢
  split_ifs at h ⊢ <;> simp_all

/-- The members of `Vary` are joined as lists. -/
theorem members_join (g : Gate) (field : HeaderField) :
    members (g.join (one field)).combinedVary = members g.combinedVary ++
      members (one field).combinedVary := by
  cases hsaw : (one field).sawVary with
  | false => simp [join, hsaw, one_combinedVary field hsaw, show members [] = [] from rfl]
  | true =>
    have h := members_foldl_join (Or.inl rfl) [(one field).combinedVary] g.combinedVary
    simpa [join, hsaw] using h

/-- Two gates that differ only by an order. -/
structure Similar (g g' : Gate) : Prop where
  carried : g.carried.Perm g'.carried
  vary : (members g.combinedVary).Perm (members g'.combinedVary)
  sawVary : g.sawVary = g'.sawVary
  neverOptimized : g.neverOptimized = g'.neverOptimized
  reasons : g.reasons.Perm g'.reasons

end Gate

/-- The gate gathers from each line what the line alone gives. -/
theorem foldl_add (headers : List HeaderField) :
    (headers.foldl Gate.add {}).carried = headers.flatMap (Gate.one · |>.carried) ∧
      members (headers.foldl Gate.add {}).combinedVary =
        headers.flatMap (members <| Gate.one · |>.combinedVary) ∧
      (headers.foldl Gate.add {}).sawVary = headers.any (Gate.one · |>.sawVary) ∧
      (headers.foldl Gate.add {}).neverOptimized = headers.any (Gate.one · |>.neverOptimized) ∧
      (headers.foldl Gate.add {}).reasons = headers.flatMap (Gate.one · |>.reasons) := by
  induction headers using reverseRecOn with
  | nil => exact ⟨rfl, rfl, rfl, rfl, rfl⟩
  | append_singleton headers field ih =>
    obtain ⟨hcarried, hvary, hsaw, hnever, hreasons⟩ := ih
    rw [foldl_append, foldl_cons, foldl_nil, Gate.add_eq_join, Gate.members_join, hvary]
    simp [Gate.join, hcarried, hsaw, hnever, hreasons]

variable {headers headers' : List HeaderField}

/-- Headers in another order gather the same, but for the order. -/
theorem foldl_add_similar (h : headers.Perm headers') :
    (headers.foldl Gate.add {}).Similar (headers'.foldl Gate.add {}) := by
  obtain ⟨hcarried, hvary, hsaw, hnever, hreasons⟩ := foldl_add headers
  obtain ⟨hcarried', hvary', hsaw', hnever', hreasons'⟩ := foldl_add headers'
  refine ⟨?_, ?_, ?_, ?_, ?_⟩
  · rw [hcarried, hcarried']
    exact h.flatMap_right _
  · rw [hvary, hvary']
    exact h.flatMap_right _
  · rw [hsaw, hsaw']
    exact h.any_eq
  · rw [hnever, hnever']
    exact h.any_eq
  · rw [hreasons, hreasons']
    exact h.flatMap_right _

namespace Gate

variable {g g' : Gate}

theorem settle_neverOptimized (g : Gate) : g.settle.neverOptimized = g.neverOptimized := by
  unfold settle addReason
  simp only
  split_ifs <;> rfl

/-- The block is too large. -/
def TooLarge (g : Gate) : Prop :=
  g.carried ≠ [] ∧
    (g.carried.length > 0xFFFF ∨ encodedSize g.carried > kMaxHeadersSidecarPayloadBytes)

instance (g : Gate) : Decidable g.TooLarge := inferInstanceAs (Decidable (_ ∧ _))

theorem settle_reasons (g : Gate) : g.settle.reasons = g.reasons ++
    ((if g.sawVary ∧ varyUncacheable g.combinedVary then
      [lit "vary-unstorable:" ++ g.combinedVary] else []) ++
      if g.TooLarge then [lit "sidecar-too-large"] else []) := by
  unfold settle addReason TooLarge
  simp only
  split_ifs <;> simp_all

/-- The size of the block does not depend on the order. -/
theorem Similar.tooLarge_iff (h : g.Similar g') : g.TooLarge ↔ g'.TooLarge := by
  have hsize : encodedSize g.carried = encodedSize g'.carried :=
    congrArg (3 + ·) (h.carried.map _).sum_nat
  have hnil : g.carried = [] ↔ g'.carried = [] :=
    ⟨fun he => (he ▸ h.carried).nil_eq.symm, fun he => (he ▸ h.carried).eq_nil⟩
  unfold TooLarge
  rw [hsize, h.carried.length_eq, ne_eq, ne_eq, hnil]

theorem Similar.varyUncacheable_eq (h : g.Similar g') :
    varyUncacheable g.combinedVary = varyUncacheable g'.combinedVary := by
  rw [Cache.varyUncacheable_eq, Cache.varyUncacheable_eq, h.vary.all_eq]

/-- Whether there is a reason does not depend on the order, and neither does a reason that names no
list. -/
theorem Similar.settle (h : g.Similar g') : (g.settle.reasons = [] ↔ g'.settle.reasons = []) ∧
    (lit "nonce-csp" ∈ g.settle.reasons ↔ lit "nonce-csp" ∈ g'.settle.reasons) := by
  have hnil : g.reasons = [] ↔ g'.reasons = [] :=
    ⟨fun he => (he ▸ h.reasons).nil_eq.symm, fun he => (he ▸ h.reasons).eq_nil⟩
  have hother (list : Bytes) : lit "nonce-csp" ≠ lit "vary-unstorable:" ++ list := by
    intro he
    rw [show lit "nonce-csp" = ch 'n' :: lit "once-csp" from rfl] at he
    exact absurd (cons.inj he).1 (by decide)
  rw [settle_reasons, settle_reasons, h.sawVary, h.varyUncacheable_eq]
  simp only [h.tooLarge_iff, append_eq_nil_iff, mem_append, hnil, h.reasons.mem_iff]
  constructor
  · refine and_congr_right fun _ => and_congr_left fun _ => ?_
    split_ifs <;> simp
  · refine or_congr_right (or_congr_left ?_)
    split_ifs
    · simp [hother]
    · rfl

end Gate

/-- Sorting loses no reason. -/
theorem mem_sortUnique {reason : Bytes} (reasons : List Bytes) : reason ∈ sortUnique reasons ↔
    reason ∈ reasons := by
  have hR : ∀ a b : Bytes, a ≠ b ↔ a.map UInt8.toNat ≠ b.map UInt8.toNat := fun a b =>
    (map_injective_iff.2 fun _ _ => UInt8.toNat_inj.1).ne_iff.symm
  have hsub : (sortUnique reasons).Sublist
      (reasons.insertionSort fun a b => a.map UInt8.toNat ≤ b.map UInt8.toNat) :=
    destutter_sublist _ _
  constructor
  · intro h
    exact (perm_insertionSort _ reasons).mem_iff.1 (hsub.subset h)
  · intro h
    have hsorted : reason ∈ reasons.insertionSort fun a b =>
        a.map UInt8.toNat ≤ b.map UInt8.toNat :=
      (perm_insertionSort _ reasons).mem_iff.2 h
    obtain ⟨y, hy, heq⟩ := Choice.exists_mem_destutter hR hsorted
    exact map_injective_iff.2 (fun _ _ => UInt8.toNat_inj.1) heq ▸ hy

/-- What the rules read of the gate's classification. -/
theorem classifyForHeadersSidecar_perm (h : headers.Perm headers') :
    (classifyForHeadersSidecar headers).verdict = (classifyForHeadersSidecar headers').verdict ∧
      (lit "nonce-csp" ∈ (classifyForHeadersSidecar headers).reasons ↔
        lit "nonce-csp" ∈ (classifyForHeadersSidecar headers').reasons) := by
  have hsim := foldl_add_similar h
  have hverdict (headers : List HeaderField) : (classifyForHeadersSidecar headers).verdict =
      if (headers.foldl Gate.add {}).neverOptimized then .neverOptimized
      else if (headers.foldl Gate.add {}).settle.reasons = [] then .swapEligible
      else .fallThrough := by
    unfold classifyForHeadersSidecar
    simp only [Gate.settle_neverOptimized]
    split_ifs <;> simp_all
  have hreasons (headers : List HeaderField) : lit "nonce-csp" ∈
    (classifyForHeadersSidecar headers).reasons ↔
      lit "nonce-csp" ∈ (headers.foldl Gate.add {}).settle.reasons := by
    rw [← mem_sortUnique (headers.foldl Gate.add {}).settle.reasons]
    unfold classifyForHeadersSidecar
    simp only
    split_ifs <;> rfl
  obtain ⟨hnil, hcsp⟩ := hsim.settle
  constructor
  · rw [hverdict, hverdict, hsim.neverOptimized]
    simp only [hnil]
  · rw [hreasons, hreasons, hcsp]

/-! ## Lookups -/

section Lookups

variable {headers headers' : List HeaderField} (h : headers.Perm headers')
include h

/-- The lines of a name are the same lines. -/
theorem linesOf_perm (name : Bytes) : (linesOf headers name).Perm (linesOf headers' name) :=
  (h.filter _).map _

theorem countHeader_perm (name : Bytes) : countHeader headers name = countHeader headers' name :=
  h.countP_eq _

theorem findHeader_isSome_perm (name : Bytes) :
    (findHeader headers name).isSome = (findHeader headers' name).isSome := by
  rw [Bool.eq_iff_iff, findHeader, findHeader, find?_isSome, find?_isSome]
  simp only [h.mem_iff]

/-- A header that is there once is found in any order. -/
theorem findHeader_perm {name : Bytes} (hone : countHeader headers name = 1) :
    findHeader headers name = findHeader headers' name := by
  rw [findHeader, findHeader, ← head?_filter, ← head?_filter]
  rw [countHeader, countP_eq_length_filter, length_eq_one_iff] at hone
  obtain ⟨field, hfield⟩ := hone
  have hp := h.filter (asciiEqualsIgnoreCase ·.name name)
  rw [hfield] at hp
  rw [hfield, singleton_perm.1 hp]

end Lookups

/-! ## The rules -/

/-- Two verdicts that say the same, the text of the refusal and the evidence apart. -/
structure Agree (v w : HtmlStoreVerdict) : Prop where
  action : v.action = w.action
  reason : v.reason = w.reason
  lifetimeS : v.lifetimeS = w.lifetimeS
  lifetimeExplicit : v.lifetimeExplicit = w.lifetimeExplicit
  needsValidation : v.needsValidation = w.needsValidation
  hasValidators : v.hasValidators = w.hasValidators
  explicitShared : v.explicitShared = w.explicitShared
  ccFlags : v.ccFlags = w.ccFlags

namespace Agree

variable {v w : HtmlStoreVerdict} (h : Agree v w)
include h

theorem refuse (reason : HtmlStoreReason) (detail detail' : Bytes) :
    Agree (v.refuse reason detail) (w.refuse reason detail') :=
  { h with action := rfl, reason := rfl }

theorem bodyRules (response : HtmlStoreResponse) (headers' : List HeaderField)
    (policy : HtmlStorePolicy) :
    Agree (bodyRules response policy v)
      (Cache.bodyRules { response with headers := headers' } policy w) := by
  unfold Cache.bodyRules
  simp only [h.ccFlags]
  split_ifs
  · exact h.refuse ..
  · exact h.refuse ..
  all_goals
    cases scanForSignal response.bodyPrefix (response.bodyBytes > kPersonalisationScanBytes) with
    | some signal => exact h.refuse ..
    | none =>
      exact { h with action := rfl, reason := rfl, ccFlags := rfl }

end Agree

/-- What the rules read of two parsed Cache-Controls is the same. -/
structure SameControl (maxAgeCount sMaxageCount : ℕ) (cc cc' : OriginCacheControl) : Prop where
  ccFlags : cc.ccFlags = cc'.ccFlags
  maxAge : maxAgeCount ≤ 1 → cc.maxAge = cc'.maxAge
  sMaxage : sMaxageCount ≤ 1 → cc.sMaxage = cc'.sMaxage

section Stages

variable {v w : HtmlStoreVerdict} {response : HtmlStoreResponse} {headers' : List HeaderField}
  {cc cc' : OriginCacheControl}
variable {maxAgeCount sMaxageCount : ℕ} (h : Agree v w) (hp : response.headers.Perm headers')

include hp in
/-- The `Expires` line gives the same lifetime: several of them, or several dates, give none of
their own. -/
theorem expiresLifetime_perm (nowSeconds : ℕ) :
    (findHeader response.headers (lit "expires")).map
      (expiresLifetime response.headers nowSeconds) =
      (findHeader headers' (lit "expires")).map (expiresLifetime headers' nowSeconds) := by
  have hdate : (if countHeader response.headers (lit "date") = 1 then
        ((findHeader response.headers (lit "date")).bind fun h =>
          parseHttpDateSeconds h.value nowSeconds).getD nowSeconds
      else (nowSeconds : ℤ)) =
      if countHeader headers' (lit "date") = 1 then
        ((findHeader headers' (lit "date")).bind fun h =>
          parseHttpDateSeconds h.value nowSeconds).getD nowSeconds
      else (nowSeconds : ℤ) := by
    rw [← countHeader_perm hp]
    split_ifs with hone
    · rw [findHeader_perm hp hone]
    · rfl
  unfold expiresLifetime
  simp only [hdate, ← countHeader_perm hp (lit "expires")]
  by_cases hone : countHeader response.headers (lit "expires") = 1
  · rw [findHeader_perm hp hone]
  · have hsome := findHeader_isSome_perm hp (lit "expires")
    simp only [if_neg hone]
    cases h₁ : findHeader response.headers (lit "expires")
      <;> cases h₂ : findHeader headers' (lit "expires") <;>
      simp_all

/-- The verdict with the lifetime that a line gives. -/
def withLifetime (headers : List HeaderField) (nowSeconds : ℕ) (cc : OriginCacheControl)
    (maxAgeCount : ℕ) (v : HtmlStoreVerdict) : HtmlStoreVerdict :=
  if cc.ccFlags &&& kCCOriginSMaxagePresent ≠ 0 then
    { v with lifetimeS := cc.sMaxage, lifetimeExplicit := true }
  else if maxAgeCount > 0 then { v with lifetimeS := cc.maxAge, lifetimeExplicit := true }
  else
    match findHeader headers (lit "expires") with
    | some expires =>
      { v with lifetimeS := expiresLifetime headers nowSeconds expires, lifetimeExplicit := true }
    | none => v

/-- Several lifetimes count as none. -/
def capLifetime (conflicting : Bool) (v : HtmlStoreVerdict) : HtmlStoreVerdict :=
  if conflicting then { v with lifetimeS := 0 } else v

/-- The verdict with what it says on validation. -/
def withValidators (headers : List HeaderField) (noCache : Prop) [Decidable noCache]
    (conflicting : Bool) (v : HtmlStoreVerdict) :
    HtmlStoreVerdict :=
  let v := { v with needsValidation := v.lifetimeS = 0 ∨ noCache ∨ conflicting }
  if headers.any isValidator then { v with hasValidators := true } else v

/-- The freshness rules, each source of a lifetime on its own. -/
theorem freshnessRules_eq (policy : HtmlStorePolicy) (v : HtmlStoreVerdict) :
    freshnessRules response policy cc maxAgeCount sMaxageCount v =
      let conflicting : Bool := maxAgeCount > 1 ∨ sMaxageCount > 1
      let v := withValidators response.headers (cc.ccFlags &&& kCCOriginNoCache ≠ 0) conflicting
        (capLifetime conflicting (withLifetime response.headers policy.nowSeconds cc maxAgeCount v))
      if (v.lifetimeExplicit = false ∧ v.hasValidators = false) ∨
          (v.needsValidation ∧ v.hasValidators = false) then
        v.refuse .noLifetime []
      else bodyRules response policy v := rfl

include h hp in
/-- Two lifetimes differ only where there are several. -/
theorem withLifetime_perm (hcc : SameControl maxAgeCount sMaxageCount cc cc') (nowSeconds : ℕ) :
    ∃ n, Agree (withLifetime response.headers nowSeconds cc maxAgeCount v)
        { withLifetime headers' nowSeconds cc' maxAgeCount w with lifetimeS := n } ∧
      (maxAgeCount ≤ 1 → sMaxageCount ≤ 1 →
        n = (withLifetime headers' nowSeconds cc' maxAgeCount w).lifetimeS) := by
  have hexp := expiresLifetime_perm hp nowSeconds
  have hset (n : ℕ) : Agree { v with lifetimeS := n, lifetimeExplicit := true }
      { w with lifetimeS := n, lifetimeExplicit := true } :=
    { h with lifetimeS := rfl, lifetimeExplicit := rfl }
  unfold withLifetime
  rw [hcc.ccFlags]
  split_ifs
  · exact ⟨cc.sMaxage, hset _, fun _ hone => hcc.sMaxage hone⟩
  · exact ⟨cc.maxAge, hset _, fun hone _ => hcc.maxAge hone⟩
  · cases h₁ : findHeader response.headers (lit "expires") with
    | none =>
      obtain h₂ : findHeader headers' (lit "expires") = none := by simpa [h₁] using hexp.symm
      exact ⟨w.lifetimeS, by simpa [h₂] using h, by simp [h₂]⟩
    | some e =>
      rw [h₁, Option.map_some] at hexp
      obtain ⟨e', h₂, heq⟩ := Option.map_eq_some_iff.1 hexp.symm
      exact ⟨expiresLifetime response.headers nowSeconds
        e, by simpa [h₂] using hset _, by simp [h₂, heq]⟩

theorem capLifetime_agree {n : ℕ} (conflicting : Bool) (hn : Agree v { w with lifetimeS := n })
    (hone : conflicting = false → n = w.lifetimeS) :
    Agree (capLifetime conflicting v) (capLifetime conflicting w) := by
  cases conflicting with
  | true => exact { hn with lifetimeS := rfl }
  | false => exact { hn with lifetimeS := hn.lifetimeS.trans (hone rfl) }

include h hp in
theorem Agree.withValidators (noCache : Prop) [Decidable noCache] (conflicting : Bool) :
    Agree (withValidators response.headers noCache conflicting v)
      (Cache.withValidators headers' noCache conflicting w) := by
  have hval : response.headers.any isValidator = headers'.any isValidator := hp.any_eq
  unfold Cache.withValidators
  simp only [hval, h.lifetimeS]
  split_ifs
  · exact { h with lifetimeS := rfl, needsValidation := rfl, hasValidators := rfl }
  · exact { h with lifetimeS := rfl, needsValidation := rfl }

include h hp in
/-- The freshness rules agree. -/
theorem Agree.freshnessRules (hcc : SameControl maxAgeCount sMaxageCount cc cc')
    (policy : HtmlStorePolicy) :
    Agree (freshnessRules response policy cc maxAgeCount sMaxageCount v)
      (Cache.freshnessRules { response with headers := headers' } policy cc' maxAgeCount
        sMaxageCount w) := by
  obtain ⟨n, hn, hone⟩ := withLifetime_perm h hp hcc policy.nowSeconds
  have hcap := capLifetime_agree (maxAgeCount > 1 ∨ sMaxageCount > 1) hn fun hconf => by
    have hle := of_decide_eq_false hconf
    exact hone (by omega) (by omega)
  have hv := hcap.withValidators hp (cc.ccFlags &&& kCCOriginNoCache ≠ 0)
    (maxAgeCount > 1 ∨ sMaxageCount > 1)
  rw [freshnessRules_eq, freshnessRules_eq]
  simp only [← hcc.ccFlags, hv.lifetimeExplicit, hv.hasValidators, hv.needsValidation]
  split_ifs
  · exact hv.refuse ..
  · exact hv.bodyRules response headers' policy

include h hp in
/-- The sidecar rules agree. -/
theorem Agree.sidecarRules (hcc : SameControl maxAgeCount sMaxageCount cc cc')
    (policy : HtmlStorePolicy) :
    Agree (sidecarRules response policy cc maxAgeCount sMaxageCount v)
      (Cache.sidecarRules { response with headers := headers' } policy cc' maxAgeCount
        sMaxageCount w) := by
  obtain ⟨hverdict, hcsp⟩ := classifyForHeadersSidecar_perm hp
  have hv : Agree
      { v with sidecar := classifyForHeadersSidecar response.headers, sidecarEvaluated := true }
      { w with sidecar := classifyForHeadersSidecar headers', sidecarEvaluated := true } :=
    { h with }
  unfold Cache.sidecarRules
  simp only [hverdict, hcsp]
  cases (classifyForHeadersSidecar headers').verdict with
  | neverOptimized => exact hv.refuse ..
  | fallThrough => exact hv.refuse ..
  | swapEligible => exact hv.freshnessRules hp hcc policy

include h hp in
/-- The `Vary` rules agree. -/
theorem Agree.varyRules (hcc : SameControl maxAgeCount sMaxageCount cc cc')
    (policy : HtmlStorePolicy) :
    Agree (varyRules response policy cc maxAgeCount sMaxageCount v)
      (Cache.varyRules { response with headers := headers' } policy cc' maxAgeCount
        sMaxageCount w) := by
  have htokens : (varyTokensOf (joinVary (linesOf response.headers (lit "vary")))).Perm
      (varyTokensOf (joinVary (linesOf headers' (lit "vary")))) := by
    rw [varyTokensOf_joinVary, varyTokensOf_joinVary]
    exact ((linesOf_perm hp _).flatMap_right _).map _
  have hv :
    Agree { v with varyTokens := varyTokensOf (joinVary (linesOf response.headers (lit "vary"))) }
      { w with varyTokens := varyTokensOf (joinVary (linesOf headers' (lit "vary"))) } :=
    { h with }
  have hnone (t : List Bytes) : t.find? (· ≠ lit "accept-encoding") = none ↔ ∀ token ∈ t,
      token = lit "accept-encoding" := by
    simp [find?_eq_none]
  unfold Cache.varyRules
  simp only
  cases h₁ : (varyTokensOf (joinVary (linesOf response.headers (lit "vary")))).find?
    (· ≠ lit "accept-encoding") <;>
    cases h₂ : (varyTokensOf (joinVary (linesOf headers' (lit "vary")))).find?
      (· ≠ lit "accept-encoding")
  · exact hv.sidecarRules hp hcc policy
  · have hall := (hnone _).1 h₁
    simp only [htokens.mem_iff] at hall
    rw [(hnone _).2 hall] at h₂
    cases h₂
  · have hall := (hnone _).1 h₂
    simp only [← htokens.mem_iff] at hall
    rw [(hnone _).2 hall] at h₁
    cases h₁
  · exact hv.refuse ..

include h hp in
/-- The `Cache-Control` rules agree. -/
theorem Agree.cacheControlRules (request : HtmlStoreRequest) (policy : HtmlStorePolicy) :
    Agree (cacheControlRules request response policy v)
      (Cache.cacheControlRules request { response with headers := headers' } policy w) := by
  have hlines := linesOf_perm hp (lit "cache-control")
  have hmax := sum_countDirective_perm hlines (lit "max-age")
  have hs := sum_countDirective_perm hlines (lit "s-maxage")
  have hflags := ccFlags_perm hlines
  have hvalid : (linesOf response.headers (lit "cache-control")).any hasValidSMaxage =
      (linesOf headers' (lit "cache-control")).any hasValidSMaxage := hlines.any_eq
  have hcc : SameControl _ _ _ _ := ⟨hflags, maxAge_perm hlines, sMaxage_perm hlines⟩
  have hv (flags : UInt16) (shared : Bool) :
    Agree { v with ccFlags := flags, ccEvaluated := true, explicitShared := shared }
      { w with ccFlags := flags, ccEvaluated := true, explicitShared := shared } :=
    { h with explicitShared := rfl, ccFlags := rfl }
  unfold Cache.cacheControlRules
  simp only [← hmax, ← hs, ← hflags, ← hvalid]
  split_ifs
  · exact (hv _ _).refuse ..
  · exact (hv _ _).refuse ..
  · exact (hv _ _).refuse ..
  · exact (hv _ _).varyRules hp hcc policy

end Stages

theorem Agree.refl (v : HtmlStoreVerdict) : Agree v v := ⟨rfl, rfl, rfl, rfl, rfl, rfl, rfl, rfl⟩

/-- A rule that refuses on both sides, and what follows it. -/
theorem Agree.rule {p : Prop} [Decidable p] {a v w : HtmlStoreVerdict} (h : ¬ p → Agree v w) :
    Agree (if p then a else v) (if p then a else w) := by
  split_ifs with hp
  · exact Agree.refl a
  · exact h hp

/-- The rules 1 to 6 look for a header, count it, or look at all of its lines. -/
theorem applyStoreRules_perm (request : HtmlStoreRequest) (response : HtmlStoreResponse)
    (policy : HtmlStorePolicy) (hp : response.headers.Perm headers') :
    Agree (applyStoreRules request response policy)
      (applyStoreRules request { response with headers := headers' } policy) := by
  have hencoding : (response.headers.any fun h =>
    asciiEqualsIgnoreCase h.name (lit "content-encoding") ∧
        asciiEqualsIgnoreCase (trimOws h.value) (lit "identity") = false) =
      headers'.any fun h => asciiEqualsIgnoreCase h.name (lit "content-encoding") ∧
        asciiEqualsIgnoreCase (trimOws h.value) (lit "identity") = false := hp.any_eq
  unfold applyStoreRules
  simp only [← findHeader_isSome_perm hp, ← countHeader_perm hp, ← hencoding]
  refine .rule fun _ => .rule fun _ => .rule fun _ => .rule fun _ => .rule fun htype => ?_
  rw [← findHeader_perm hp (not_not.1 htype)]
  refine .rule fun _ => .rule fun _ => .rule fun _ => .rule fun _ => .rule fun _ => ?_
  exact (Agree.refl _).cacheControlRules hp request policy

/-- **Lines in another order get the same verdict**, for every request, policy, body and header
list. -/
theorem classifyHtmlForStore_perm (request : HtmlStoreRequest) (response : HtmlStoreResponse)
    (policy : HtmlStorePolicy) (headers' : List HeaderField) (hp : response.headers.Perm headers') :
    Agree (classifyHtmlForStore request response policy)
      (classifyHtmlForStore request { response with headers := headers' } policy) := by
  have h := applyStoreRules_perm request response policy hp
  have hset (a : HtmlStoreAction) :
    Agree { applyStoreRules request response policy with action := a }
      { applyStoreRules request { response with headers := headers' } policy with action := a } :=
    { h with action := rfl }
  unfold classifyHtmlForStore
  simp only [← h.action]
  split_ifs
  · exact Agree.refl _
  · exact h
  · cases (applyStoreRules request response policy).action with
    | store => exact hset _
    | storeNoNotify => exact hset _
    | _ => exact h

/-- A page with two lifetimes. -/
def conflictingPage (first second : String) : HtmlStoreResponse where
  status := 200
  headers := [⟨lit "Content-Type", lit "text/html"⟩, ⟨lit "Cache-Control", lit first⟩,
    ⟨lit "Cache-Control", lit second⟩, ⟨lit "ETag", lit "\"1\""⟩]

/-- The first and the last of two lifetimes change places, and the page is stored for validation. -/
theorem classifyHtmlForStore_perm_conflicting :
    Agree
        (classifyHtmlForStore ⟨lit "GET", lit "/", false, false, false, false⟩
          (conflictingPage "max-age=60" "max-age=30") { mode := .serveCachedHtml })
        (classifyHtmlForStore ⟨lit "GET", lit "/", false, false, false, false⟩
          (conflictingPage "max-age=30" "max-age=60")
          { mode := .serveCachedHtml }) ∧
      (classifyHtmlForStore ⟨lit "GET", lit "/", false, false, false, false⟩
        (conflictingPage "max-age=60" "max-age=30") { mode := .serveCachedHtml }).action = .store :=
  ⟨classifyHtmlForStore_perm _ (conflictingPage "max-age=60" "max-age=30") _
    (conflictingPage "max-age=30" "max-age=60").headers (by decide +kernel), by decide +kernel⟩

end PageSpeed.Cache
