import PageSpeed.Spec.CacheKey
import PageSpeed.Wire.Split

/-!
# Cache keys do not collide

* `KeyParts.key_eq`: the four shapes of a key are one shape with two optional parts.
* `composeSiteKey_separates`: two requests share a key exactly when they agree on site,
  context, scheme, host and url.
-/

namespace PageSpeed.PageSpeedCache

open Wire List

/-- What a cache key is composed from. -/
structure KeyParts where
  site : Bytes
  signature : Bytes
  scheme : Bytes
  host : Bytes
  url : Bytes

open KeyParts

namespace KeyParts

/-- The shape of the parts at every call of the composer. -/
structure WellFormed (p : KeyParts) : Prop where
  site : p.site = [] ∨ isSiteId p.site = true
  signature : p.signature = [] ∨ p.signature = kDefaultOptionContextSignature ∨
    (p.signature.length = 64 ∧ p.signature.all isLowerHex = true)
  scheme : p.scheme = lit "http" ∨ p.scheme = lit "https"
  host : ch '/' ∉ p.host
  url : p.url.head? = some (ch '/')

variable (p : KeyParts)

/-- The site, if there is one. -/
def siteOf : Option Bytes := if p.site = [] then none else some p.site

/-- The option context, if it is not the default one. -/
def contextOf : Option Bytes :=
  if isDefaultOptionContext p.signature then none else some p.signature

/-- The key of a request. -/
def key {κ : Type} (cacheKey : Bytes → κ) (p : KeyParts) : κ :=
  composeSiteKeyPreNormalized cacheKey p.url p.host p.scheme p.signature p.site

/-- The string behind the optional parts. -/
def location : Bytes := p.scheme ++ (lit "://" ++ (p.host ++ p.url))

end KeyParts

variable {κ : Type} {cacheKey : Bytes → κ} {p q : KeyParts}

/-- **The four shapes are one**: namespace, optional site, optional context, location. -/
theorem key_eq (p : KeyParts) : p.key cacheKey = cacheKey (kKeyNamespace ++
    (tagged kSiteKeyPrefix (ch '@') p.siteOf ++
      (tagged kContextKeyPrefix (ch '@') p.contextOf ++ p.location))) := by
  unfold key composeSiteKeyPreNormalized siteOf
  by_cases hs : p.site = []
  · rw [if_pos (by simp [hs]), if_pos hs]
    unfold composeKeyPreNormalized contextOf
    by_cases hc : isDefaultOptionContext p.signature = true
    · rw [if_pos hc, if_pos hc]
      simp only [composePlainKeyPreNormalized, keyInNamespace, tagged, location,
        nil_append, append_assoc]
    · rw [if_neg hc, if_neg hc]
      simp only [keyInNamespace, tagged, location, nil_append, append_assoc]
  · rw [if_neg (by simp [hs]), if_neg hs]
    unfold contextOf
    by_cases hc : isDefaultOptionContext p.signature = true
    · simp only [hc, keyInNamespace, tagged, location, append_assoc, if_true,
        Bool.not_true, Bool.false_eq_true, if_false, nil_append]
    · simp only [hc, keyInNamespace, tagged, location, append_assoc, Bool.not_false,
        if_true, Bool.false_eq_true, if_false]

namespace KeyParts.WellFormed

/-- A site in a key has 64 characters. -/
theorem length_siteOf (h : p.WellFormed) : ∀ v ∈ p.siteOf, v.length = 64 := by
  intro v hv
  unfold siteOf at hv
  split_ifs at hv with h0
  · simp at hv
  · obtain rfl : p.site = v := by simpa using hv
    rcases h.site with hs | hs
    · exact absurd hs h0
    · exact (of_decide_eq_true hs).1

/-- So has a context. -/
theorem length_contextOf (h : p.WellFormed) : ∀ v ∈ p.contextOf, v.length = 64 := by
  intro v hv
  unfold contextOf at hv
  split_ifs at hv with h0
  · simp at hv
  · obtain rfl : p.signature = v := by simpa using hv
    rcases h.signature with hs | hs | hs
    · rw [hs] at h0; exact absurd rfl h0
    · rw [hs]; rfl
    · exact hs.1

/-- A location starts with its scheme, and no mark does. -/
theorem head?_location (h : p.WellFormed) : p.location.head? = some (ch 'h') := by
  unfold location
  rcases h.scheme with hs | hs <;> rw [hs] <;> rfl

/-- The location cancels: scheme, then host up to the first slash, then url. -/
theorem location_inj (hp : p.WellFormed) (hq : q.WellFormed) (h : p.location = q.location) :
    p.scheme = q.scheme ∧ p.host = q.host ∧ p.url = q.url := by
  have hrest : p.host ++ p.url = q.host ++ q.url → p.host = q.host ∧ p.url = q.url :=
    until_inj hp.host hq.host hp.url hq.url
  unfold location at h
  rcases hp.scheme with hs | hs <;> rcases hq.scheme with hs' | hs' <;> rw [hs, hs'] at h ⊢
  · rw [append_right_inj, append_right_inj] at h
    exact ⟨rfl, hrest h⟩
  · -- "http:" against "https"
    have h4 : some (ch ':') = some (ch 's') := congrArg (fun l : Bytes => l[4]?) h
    exact absurd h4 (by decide)
  · have h4 : some (ch 's') = some (ch ':') := congrArg (fun l : Bytes => l[4]?) h
    exact absurd h4 (by decide)
  · rw [append_right_inj, append_right_inj] at h
    exact ⟨rfl, hrest h⟩

end KeyParts.WellFormed

theorem siteOf_inj (h : p.siteOf = q.siteOf) : p.site = q.site := by
  unfold siteOf at h
  split_ifs at h with h1 h2 h2
  · rw [h1, h2]
  · exact Option.some.inj h

/-- The contexts agree when the signatures do, up to the two spellings of the default. -/
theorem contextOf_eq_iff : p.contextOf = q.contextOf ↔ p.signature = q.signature ∨
    (isDefaultOptionContext p.signature = true ∧ isDefaultOptionContext q.signature = true) := by
  unfold contextOf
  constructor
  · intro h
    split_ifs at h with h1 h2 h2
    · exact .inr ⟨h1, h2⟩
    · exact .inl (Option.some.inj h)
  · rintro (h | ⟨h1, h2⟩)
    · rw [h]
    · rw [if_pos h1, if_pos h2]

/-- The strings of two requests agree only if their parts do: the parts cancel from the
left, since "s", "o" and "h" start differently. -/
theorem parts_inj (hp : p.WellFormed) (hq : q.WellFormed)
    (h : tagged kSiteKeyPrefix (ch '@') p.siteOf ++
        (tagged kContextKeyPrefix (ch '@') p.contextOf ++ p.location) =
      tagged kSiteKeyPrefix (ch '@') q.siteOf ++
        (tagged kContextKeyPrefix (ch '@') q.contextOf ++ q.location)) :
    p.siteOf = q.siteOf ∧ p.contextOf = q.contextOf ∧ p.location = q.location := by
  have hctx : ∀ {r : KeyParts}, r.WellFormed →
      (tagged kContextKeyPrefix (ch '@') r.contextOf ++ r.location).head? ≠ some (ch 's') := by
    intro r hr
    cases hc : r.contextOf with
    | none => rw [tagged, nil_append, hr.head?_location]; decide
    | some v => rw [tagged, append_assoc, append_assoc]; exact show some (ch 'o') ≠ _ by decide
  have hloc : ∀ {r : KeyParts}, r.WellFormed → r.location.head? ≠ some (ch 'o') := by
    intro r hr
    rw [hr.head?_location]; decide
  obtain ⟨h1, h2⟩ := tagged_inj (t := ch 's') hp.length_siteOf hq.length_siteOf
    (hctx hp) (hctx hq) h
  obtain ⟨h3, h4⟩ := tagged_inj (t := ch 'o') hp.length_contextOf hq.length_contextOf
    (hloc hp) (hloc hq) h2
  exact ⟨h1, h3, h4⟩

/-- **Cache keys separate.** Two requests share a key exactly when they agree on site,
context, scheme, host and url; the shorter overloads are the same composition with an
empty site, and an empty context. -/
theorem composeSiteKey_separates (hd : Function.Injective cacheKey) (hp : p.WellFormed)
    (hq : q.WellFormed) :
    (p.key cacheKey = q.key cacheKey ↔ p.site = q.site ∧
      (p.signature = q.signature ∨
        (isDefaultOptionContext p.signature = true ∧ isDefaultOptionContext q.signature = true)) ∧
      p.scheme = q.scheme ∧ p.host = q.host ∧ p.url = q.url) ∧
    composeKeyPreNormalized cacheKey p.url p.host p.scheme p.signature =
      { p with site := [] }.key cacheKey ∧
    composePlainKeyPreNormalized cacheKey p.url p.host p.scheme =
      { p with site := [], signature := [] }.key cacheKey := by
  refine ⟨⟨fun h => ?_, fun h => ?_⟩, rfl, rfl⟩
  · rw [key_eq, key_eq] at h
    obtain ⟨h1, h2, h3⟩ := parts_inj hp hq (append_cancel_left (hd h))
    exact ⟨siteOf_inj h1, contextOf_eq_iff.1 h2, hp.location_inj hq h3⟩
  · obtain ⟨h1, h2, h3, h4, h5⟩ := h
    rw [key_eq, key_eq, contextOf_eq_iff.2 h2]
    unfold siteOf location
    rw [h1, h3, h4, h5]

/-- A sited request under a context of its own. -/
theorem composeSiteKey_separates_sited :
    let p : KeyParts :=
      { site := List.replicate 64 (ch '0'), signature := List.replicate 64 (ch 'a')
        scheme := lit "https", host := lit "h", url := lit "/" }
    let q : KeyParts := { p with signature := kDefaultOptionContextSignature }
    p.WellFormed ∧ q.WellFormed ∧ p.key id ≠ q.key id ∧
      q.key id = { q with signature := [] }.key id := by
  intro p q
  have hp : p.WellFormed :=
    ⟨.inr (by decide), .inr (.inr (by decide)), .inr rfl, by decide, by decide⟩
  have hq : q.WellFormed := ⟨.inr (by decide), .inr (.inl rfl), .inr rfl, by decide, by decide⟩
  have hr : { q with signature := [] }.WellFormed :=
    ⟨.inr (by decide), .inl rfl, .inr rfl, by decide, by decide⟩
  refine ⟨hp, hq, fun h => ?_, ?_⟩
  · have := ((composeSiteKey_separates Function.injective_id hp hq).1.1 h).2.1
    exact absurd this (by decide)
  · exact (composeSiteKey_separates Function.injective_id hq hr).1.2
      ⟨rfl, .inr ⟨by decide, by decide⟩, rfl, rfl, rfl⟩

end PageSpeed.PageSpeedCache
