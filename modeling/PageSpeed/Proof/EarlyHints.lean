import PageSpeed.Spec.EarlyHints

/-!
# What the sanitiser of link urls leaves

The encoded forms are looked for before the raw bytes are taken out, and taking them out can make
one.

* `hasEncoded_filter`: what is encoded behind the strip, read off the url.
* `count_foldl_addLink`: the angle brackets of a header.
* `sanitizeLinkUrl_clean_iff`: when a url is sanitised for good and a header has one target for each
  link.
-/

namespace PageSpeed.EarlyHints

open Wire List

/-- A percent sign in front of such a pair, if the raw bytes are left out. -/
def assembles : Bytes → Bool
  | [] => false
  | c :: rest => isInjection c (rest.filter (!isRaw ·)) || assembles rest

/-- The link is in the header. -/
def isWritten (r : PreloadResource) : Bool := !hasEncoded r.url && r.url.any (!isRaw ·)

/-- Encodings in what is left, told from the URL as it was. -/
theorem hasEncoded_filter (url : Bytes) : hasEncoded (url.filter (!isRaw ·)) = assembles url := by
  induction url with
  | nil => rfl
  | cons c rest ih =>
    rw [assembles, ← ih]
    by_cases hraw : isRaw c
    · have hc : c ≠ ch '%' := by rintro rfl; exact absurd hraw (by decide)
      rw [filter_cons_of_neg (by simp [hraw])]
      simp [isInjection, hc]
    · rw [filter_cons_of_pos (by simp [hraw]), hasEncoded]

variable {c : UInt8}

/-- What is left has no raw character. -/
theorem sanitizeLinkUrl_raw {url : Bytes} (h : c ∈ sanitizeLinkUrl url) : isRaw c = false := by
  unfold sanitizeLinkUrl at h
  split_ifs at h
  · cases h
  · simpa using of_mem_filter h

/-- When nothing is left. -/
theorem sanitizeLinkUrl_eq_nil_iff (r : PreloadResource) : sanitizeLinkUrl r.url = [] ↔
    isWritten r = false := by
  unfold sanitizeLinkUrl isWritten
  cases hasEncoded r.url <;> simp [filter_eq_nil_iff]

/-- Raw characters in the parameters are those of the resource but for line breaks. -/
theorem mem_linkParams_iff (hc : isRaw c) (r : PreloadResource) :
    c ∈ linkParams r ↔ (c ≠ ch '\r' ∧ c ≠ ch '\n') ∧ c ∈ r.rel ++ r.asType ++ r.extra := by
  have hfixed : ∀ c, isRaw c → c ∉ lit "; rel=" ∧ c ∉ lit "; as=" ∧ c ∉ lit "; " ∧
      c ∉ lit "preload" := by decide +kernel
  obtain ⟨hrel, has, hextra, hdefault⟩ := hfixed c hc
  have hpart (label v : Bytes) (h : c ∉ label) :
    (c ∈ if v = [] then [] else label ++ sanitizeHeaderValue v) ↔
      (c ≠ ch '\r' ∧ c ≠ ch '\n') ∧ c ∈ v := by
    split_ifs with hv <;> simp [hv, h, sanitizeHeaderValue, and_comm]
  have hown : c ∈ sanitizeHeaderValue (if r.rel = [] then lit "preload" else r.rel) ↔
      (c ≠ ch '\r' ∧ c ≠ ch '\n') ∧ c ∈ r.rel := by
    split_ifs with hv <;> simp [hv, hdefault, sanitizeHeaderValue, and_comm]
  simp only [linkParams, mem_append, hrel, false_or, hown, hpart _ _ has,
    hpart _ _ hextra, ← and_or_left]

/-- The links bring their brackets and what is raw in their parameters. -/
theorem count_foldl_addLink (hc : isRaw c) (rs : List PreloadResource) (result : Bytes) :
    (rs.foldl addLink result).count c =
      result.count c + (rs.filter isWritten).length * (lit "<>").count c +
        ((rs.filter isWritten).map fun r => (linkParams r).count c).sum := by
  induction rs generalizing result with
  | nil => simp
  | cons r rs ih =>
    rw [foldl_cons, ih, addLink]
    by_cases hr : isWritten r
    · have hurl : (sanitizeLinkUrl r.url).count c = 0 := by
        refine count_eq_zero.2 fun hmem => ?_
        simp [sanitizeLinkUrl_raw hmem] at hc
      have hcomma : ∀ c, isRaw c → (lit ", ").count c = 0 ∧ (lit "<").count c + (lit ">").count c =
          (lit "<>").count c := by
        decide +kernel
      obtain ⟨hcomma, hown⟩ := hcomma c hc
      rw [if_neg (by simp [sanitizeLinkUrl_eq_nil_iff, hr]), filter_cons_of_pos hr]
      simp only [count_append, map_cons, sum_cons, apply_ite (List.count c), hcomma,
        count_nil, ite_self, length_cons, Nat.succ_mul]
      omega
    · rw [if_pos (by simpa [sanitizeLinkUrl_eq_nil_iff] using hr), filter_cons_of_neg hr]

/-- The brackets are those of the links exactly if the parameters have none. -/
theorem count_formatLinkHeader_iff (hc : isRaw c) (rs : List PreloadResource) :
    (formatLinkHeader rs).count c = (rs.filter isWritten).length * (lit "<>").count c ↔
      ∀ r ∈ rs, isWritten r → ¬ ((c ≠ ch '\r' ∧ c ≠ ch '\n') ∧ c ∈ r.rel ++ r.asType ++
        r.extra) := by
  rw [formatLinkHeader, count_foldl_addLink hc, count_nil, Nat.zero_add, Nat.add_eq_left,
    sum_eq_zero_iff, forall_mem_map]
  simp only [count_eq_zero, mem_linkParams_iff hc, mem_filter, and_imp]

/-- **A url is sanitised for good, and a header has no line end and one target for each link**,
exactly if the url has an encoded form as it stands, or none when its raw bytes are left out, and
the parameters of the links have no brackets. -/
theorem sanitizeLinkUrl_clean_iff (url : Bytes) (rs : List PreloadResource) :
    ((∀ c ∈ sanitizeLinkUrl url, isRaw c = false) ∧ hasEncoded (sanitizeLinkUrl url) = false ∧
      sanitizeLinkUrl (sanitizeLinkUrl url) = sanitizeLinkUrl url) ∧
    (∀ c ∈ lit "\r\n<>", (formatLinkHeader rs).count c = (rs.filter isWritten).length *
      (lit "<>").count c) ↔ (hasEncoded url ∨ assembles url = false) ∧
      ∀ r ∈ rs, isWritten r → ∀ c ∈ lit "<>", c ∉ r.rel ++ r.asType ++ r.extra := by
  refine and_congr ?_ ?_
  · have hraw : ∀ c ∈ sanitizeLinkUrl url, isRaw c = false := fun c => sanitizeLinkUrl_raw
    by_cases hurl : hasEncoded url
    · simp [sanitizeLinkUrl, hurl, hasEncoded]
    · rw [and_iff_right hraw]
      unfold sanitizeLinkUrl
      rw [if_neg hurl, hasEncoded_filter, or_iff_right hurl]
      refine and_iff_left_of_imp fun hnone => ?_
      rw [if_neg (by simp [hnone]), filter_filter]
      simp
  · have hraw : ∀ c ∈ lit "\r\n<>", isRaw c := by decide +kernel
    have hbracket : ∀ c, c ∈ lit "<>" ↔ c ∈ lit "\r\n<>" ∧ c ≠ ch '\r' ∧ c ≠ ch '\n' := by
      decide +kernel
    rw [forall₂_congr fun c hc => count_formatLinkHeader_iff (hraw c hc) rs]
    refine ⟨fun h r hr hw c hc hmem => ?_, fun h c hc r hr hw hmem =>
      h r hr hw c ((hbracket c).2 ⟨hc, hmem.1⟩) hmem.2⟩
    obtain ⟨hc, hend⟩ := (hbracket c).1 hc
    exact h c hc r hr hw ⟨hend, hmem⟩

/-- Without its line end the url has an encoded one. -/
theorem sanitizeLinkUrl_assembles : sanitizeLinkUrl (lit "%\r0d") = lit "%0d" ∧
    sanitizeLinkUrl (lit "%0d") = [] := by
  decide

end PageSpeed.EarlyHints
