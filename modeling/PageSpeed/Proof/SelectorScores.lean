import PageSpeed.Spec.Selector

/-!
# Scores of alternates

* `score_tiers`: the nine weights, the penalty and the floor keep the tiers apart, for
  every pair of masks.
* `scoreAlternate_pos_iff`: a content variant scores above zero exactly when the client can
  take its format and its encoding.
-/

namespace PageSpeed.PageSpeedSelector

variable {clientMask storedMask : UInt32}

/-! ## Scores -/

/-- Neither sentinel nor disqualified: a score above zero. -/
structure Scored (clientMask storedMask : UInt32) (f e : ℤ) : Prop where
  content : isSentinel (storedMask &&& 0xFF).toUInt8 = false
  format : formatScore clientMask storedMask = some f
  encoding : encodingScore clientMask storedMask = some e

/-- The score is the sum of its parts, and at least 1. -/
theorem Scored.score_eq {f e : ℤ} (h : Scored clientMask storedMask f e) :
    scoreAlternate clientMask storedMask =
      max 1 (f + viewportScore clientMask storedMask + densityScore clientMask storedMask +
        saveDataScore clientMask storedMask + e) := by
  unfold scoreAlternate
  rw [if_neg (by rw [h.content]; decide), h.format, h.encoding]
  dsimp only
  split_ifs <;> omega

/-- No score, or a sum. -/
theorem scoreAlternate_cases (clientMask storedMask : UInt32) :
    scoreAlternate clientMask storedMask = 0 ∨ ∃ f e, Scored clientMask storedMask f e := by
  by_cases hs : isSentinel (storedMask &&& 0xFF).toUInt8 = true
  · exact .inl (if_pos hs)
  · cases hf : formatScore clientMask storedMask with
    | none =>
      left; unfold scoreAlternate; rw [if_neg hs, hf]
    | some f =>
      cases he : encodingScore clientMask storedMask with
      | none =>
        left; unfold scoreAlternate; rw [if_neg hs, hf, he]
      | some e => exact .inr ⟨f, e, by simpa using hs, hf, he⟩

theorem scored_of_pos (h : 0 < scoreAlternate clientMask storedMask) :
    ∃ f e, Scored clientMask storedMask f e := by
  rcases scoreAlternate_cases clientMask storedMask with h0 | h1
  · omega
  · exact h1

theorem scoreAlternate_nonneg : 0 ≤ scoreAlternate clientMask storedMask := by
  rcases scoreAlternate_cases clientMask storedMask with h0 | ⟨f, e, h⟩
  · exact h0.ge
  · rw [h.score_eq]; omega

/-- The nine weights, tier by tier. -/
structure Weights (clientMask storedMask : UInt32) (f e : ℤ) : Prop where
  format_svg : isSvg storedMask = true → f = 1200
  format_raster : isSvg storedMask = false → 100 ≤ f ∧ f ≤ 1000
  viewport_match : isSvg storedMask = true ∨
    extractViewport clientMask = extractViewport storedMask →
    viewportScore clientMask storedMask = 2000
  viewport_clash : isSvg storedMask = false →
    extractViewport clientMask ≠ extractViewport storedMask →
    viewportScore clientMask storedMask = 0
  viewport_le : viewportScore clientMask storedMask ≤ 2000
  density_svg : isSvg storedMask = true → densityScore clientMask storedMask = 40
  density : 0 ≤ densityScore clientMask storedMask ∧ densityScore clientMask storedMask ≤ 40
  saveData_svg : isSvg storedMask = true →
    0 ≤ saveDataScore clientMask storedMask ∧ saveDataScore clientMask storedMask ≤ 50
  saveData_raster : isSvg storedMask = false →
    -980 ≤ saveDataScore clientMask storedMask ∧ saveDataScore clientMask storedMask ≤ 20
  saveData_match : extractSaveData clientMask = extractSaveData storedMask →
    20 ≤ saveDataScore clientMask storedMask
  saveData_clash : isSvg storedMask = false →
    extractSaveData clientMask ≠ extractSaveData storedMask →
    extractSaveData storedMask = 1 → saveDataScore clientMask storedMask = -980
  encoding : 5 ≤ e ∧ e ≤ 60

/-- The parts, each by whether the client and the alternate agree on it. -/
theorem Scored.weights {f e : ℤ} (h : Scored clientMask storedMask f e) :
    Weights clientMask storedMask f e := by
  have hf := h.format
  have he := h.encoding
  unfold formatScore at hf
  unfold encodingScore at he
  constructor
  case format_svg => intro hs; rw [if_pos hs] at hf; exact (Option.some.inj hf).symm
  case format_raster =>
    intro hs
    rw [if_neg (by simp [hs])] at hf
    split_ifs at hf <;> have := Option.some.inj hf <;> omega
  case viewport_match => intro hm; exact if_pos hm
  case viewport_clash => intro hs hv; exact if_neg (by simp [hs, hv])
  case viewport_le => unfold viewportScore; split_ifs <;> omega
  case density_svg => intro hs; exact if_pos (.inl hs)
  case density => unfold densityScore; split_ifs <;> omega
  case saveData_svg =>
    intro hs
    unfold saveDataScore
    simp only [hs, not_true, false_and, if_false, true_and]
    split_ifs <;> omega
  case saveData_raster =>
    intro hs
    unfold saveDataScore kSaveDataMismatchPenalty
    simp only [hs, Bool.false_eq_true, false_and, if_false, not_false_eq_true, true_and]
    split_ifs <;> omega
  case saveData_match =>
    intro hm
    unfold saveDataScore
    simp only [hm, if_true]
    split_ifs <;> omega
  case saveData_clash =>
    intro hs hne h1
    unfold saveDataScore
    rw [if_neg (by simp [hs]), if_neg hne, if_pos ⟨by simp [hs], h1⟩]
    rfl
  case encoding => split_ifs at he <;> have := Option.some.inj he <;> omega

/-- **The tiers do not overlap.** Vector above raster, the client's viewport above any
other, normal bytes above reduced ones at that viewport; the margins are 125, 5 and 5. -/
theorem score_tiers (h : 0 < scoreAlternate clientMask storedMask) :
    (isSvg storedMask = true → 3245 ≤ scoreAlternate clientMask storedMask) ∧
    (isSvg storedMask = false → scoreAlternate clientMask storedMask ≤ 3120) ∧
    (extractViewport clientMask = extractViewport storedMask →
      1125 ≤ scoreAlternate clientMask storedMask) ∧
    (isSvg storedMask = false → extractViewport clientMask ≠ extractViewport storedMask →
      scoreAlternate clientMask storedMask ≤ 1120) ∧
    (extractViewport clientMask = extractViewport storedMask →
      extractSaveData clientMask = extractSaveData storedMask →
      2125 ≤ scoreAlternate clientMask storedMask) ∧
    (isSvg storedMask = false → extractSaveData clientMask ≠ extractSaveData storedMask →
      extractSaveData storedMask = 1 → scoreAlternate clientMask storedMask ≤ 2120) ∧
    scoreAlternate clientMask storedMask ≤ 3350 := by
  obtain ⟨f, e, hs⟩ := scored_of_pos h
  have w := hs.weights
  have hv := w.viewport_le
  have hd := w.density
  have he := w.encoding
  rw [hs.score_eq]
  cases hsvg : isSvg storedMask with
  | true =>
    have h1 := w.format_svg hsvg
    have h2 := w.viewport_match (.inl hsvg)
    have h3 := w.density_svg hsvg
    have h4 := w.saveData_svg hsvg
    refine ⟨fun _ => ?_, fun h => ?_, fun _ => ?_, fun h => ?_, fun _ _ => ?_, fun h => ?_, ?_⟩
    all_goals first | omega | cases h
  | false =>
    have h1 := w.format_raster hsvg
    have h4 := w.saveData_raster hsvg
    refine ⟨fun h => ?_, fun _ => ?_, fun hm => ?_, fun _ hm => ?_, fun hm hq => ?_,
      fun _ hne h1 => ?_, ?_⟩
    · cases h
    · omega
    · have := w.viewport_match (.inr hm); omega
    · have := w.viewport_clash hsvg hm; omega
    · have := w.viewport_match (.inr hm)
      have := w.saveData_match hq
      omega
    · have := w.saveData_clash hsvg hne h1; omega
    · omega

/-- No alternate comes near the Markdown for agents. -/
theorem scoreAlternate_le (clientMask storedMask : UInt32) :
    scoreAlternate clientMask storedMask ≤ 3350 := by
  rcases scoreAlternate_nonneg.lt_or_eq with h | h
  · exact (score_tiers h).2.2.2.2.2.2
  · rw [← h]; decide

/-! ## What a client can take -/

/-- The stored transfer encoding is one the client can take. -/
def EncodingServable (clientMask storedMask : UInt32) : Prop :=
  extractEncoding storedMask = 0 ∨ extractEncoding storedMask = extractEncoding clientMask

/-- The stored format is one the client can take. -/
def FormatServable (clientMask storedMask : UInt32) : Prop :=
  isSvg storedMask = true ∨ extractFormat storedMask = 0 ∨
    extractFormat storedMask = extractFormat clientMask

/-- The client takes both the encoding and the format. -/
def Servable (clientMask storedMask : UInt32) : Prop :=
  EncodingServable clientMask storedMask ∧ FormatServable clientMask storedMask

/-- An encoding scores if the client takes it. -/
theorem encodingScore_isSome_iff : (∃ e, encodingScore clientMask storedMask = some e) ↔
    EncodingServable clientMask storedMask := by
  unfold encodingScore EncodingServable
  split_ifs with h1 h2
  · exact ⟨fun _ => .inr h1.symm, fun _ => ⟨_, rfl⟩⟩
  · exact ⟨fun _ => .inl h2, fun _ => ⟨_, rfl⟩⟩
  · exact ⟨fun ⟨_, h⟩ => (by cases h), fun h => absurd h (by simp [h2, Ne.symm h1])⟩

/-- So does a format. -/
theorem formatScore_isSome_iff : (∃ f, formatScore clientMask storedMask = some f) ↔
    FormatServable clientMask storedMask := by
  unfold formatScore FormatServable
  split_ifs with h1 h2 h3
  · exact ⟨fun _ => .inl h1, fun _ => ⟨_, rfl⟩⟩
  · exact ⟨fun _ => .inr (.inr h2.symm), fun _ => ⟨_, rfl⟩⟩
  · exact ⟨fun _ => .inr (.inl h3), fun _ => ⟨_, rfl⟩⟩
  · exact ⟨fun ⟨_, h⟩ => (by cases h), fun h => absurd h (by simp [h1, h3, Ne.symm h2])⟩

/-- An alternate scores exactly if it can be served. -/
theorem scoreAlternate_pos_iff (hs : isSentinel (storedMask &&& 0xFF).toUInt8 = false) :
    0 < scoreAlternate clientMask storedMask ↔ Servable clientMask storedMask := by
  rw [Servable, ← encodingScore_isSome_iff, ← formatScore_isSome_iff]
  constructor
  · intro h
    obtain ⟨f, e, hsc⟩ := scored_of_pos h
    exact ⟨⟨e, hsc.encoding⟩, ⟨f, hsc.format⟩⟩
  · rintro ⟨⟨e, he⟩, ⟨f, hf⟩⟩
    have hsc : Scored clientMask storedMask f e := ⟨hs, hf, he⟩
    rw [hsc.score_eq]
    omega

end PageSpeed.PageSpeedSelector
