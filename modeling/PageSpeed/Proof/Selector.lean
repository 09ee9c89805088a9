import PageSpeed.Choice.Top
import PageSpeed.Proof.SelectorScores

/-!
# The selector picks a maximum

* `rank`: the order the scan maximises, score first, then format, then mask byte.
* `scanStep_tracks`, `select_isTop`: the scan keeps the best alternate seen so far, although its
  running mask goes stale on the markdown arm.
* `select_perm`: the choice does not depend on the listing order.
* `select_prefers`: what the choice prefers, for every stored set.
-/

namespace PageSpeed.PageSpeedSelector

open Choice Wire

/-! ## The order behind the scan -/

section Rank

variable (clientMask : UInt32) (agentRequest : Bool) (a : AlternateInfo)

/-- The score an alternate competes with. -/
def scoreOf : ℤ :=
  if isSentinel a.id then kAgentMarkdownScore else scoreAlternate clientMask a.id.toUInt32

/-- The one selectable sentinel, or a content variant that is not disqualified. -/
def Eligible : Prop :=
  if isSentinel a.id then agentRequest = true ∧ a.id = kAgentMarkdown
  else 0 < scoreAlternate clientMask a.id.toUInt32

instance (a : AlternateInfo) : Decidable (Eligible clientMask agentRequest a) := by
  unfold Eligible; infer_instance

/-- Score, then format, then mask byte. -/
def key : ℤ ×ₗ ℕ ×ₗ ℕ :=
  toLex (scoreOf clientMask a, toLex (extractFormat a.id.toUInt32, a.id.toNat))

/-- **The order the scan maximises**; what it must not choose is at the bottom. -/
def rank : WithBot (ℤ ×ₗ ℕ ×ₗ ℕ) :=
  if Eligible clientMask agentRequest a then (key clientMask a : WithBot _) else ⊥

end Rank

variable {clientMask : UInt32} {agentRequest : Bool} {a b x : AlternateInfo}
  {l : List AlternateInfo}

/-- An eligible alternate ranks by its key. -/
theorem rank_of_eligible (h : Eligible clientMask agentRequest a) :
    rank clientMask agentRequest a = (key clientMask a : WithBot _) := if_pos h

theorem rank_eq_bot (h : ¬ Eligible clientMask agentRequest a) :
    rank clientMask agentRequest a = ⊥ := if_neg h

/-- The others rank below all. -/
theorem rank_ne_bot_iff : rank clientMask agentRequest a ≠ ⊥ ↔
    Eligible clientMask agentRequest a := by
  unfold rank
  split_ifs with h
  · exact ⟨fun _ => h, fun _ => WithBot.coe_ne_bot⟩
  · exact ⟨fun hne => absurd rfl hne, fun he => absurd he h⟩

/-- Keys compare by score, and then as the loop breaks ties. -/
theorem key_lt_key_iff : key clientMask a < key clientMask b ↔
    scoreOf clientMask a < scoreOf clientMask b ∨
      scoreOf clientMask a = scoreOf clientMask b ∧ breaksTie b.id a.id = true := by
  unfold key breaksTie
  rw [Prod.Lex.toLex_lt_toLex, Prod.Lex.toLex_lt_toLex]
  simp only [decide_eq_true_eq, UInt8.lt_iff_toNat_lt, gt_iff_lt]
  constructor
  · rintro (h | ⟨h1, h2 | ⟨h2, h3⟩⟩)
    · exact .inl h
    · exact .inr ⟨h1, .inl h2⟩
    · exact .inr ⟨h1, .inr ⟨h2.symm, h3⟩⟩
  · rintro (h | ⟨h1, h2 | ⟨h2, h3⟩⟩)
    · exact .inl h
    · exact .inr ⟨h1, .inl h2⟩
    · exact .inr ⟨h1, .inr ⟨h2.symm, h3⟩⟩

/-- Alternates of equal rank carry the same id. -/
theorem id_eq_of_rank_eq (ha : Eligible clientMask agentRequest a)
    (h : rank clientMask agentRequest a = rank clientMask agentRequest b) : a.id = b.id := by
  have hb : Eligible clientMask agentRequest b := by
    rw [← rank_ne_bot_iff, ← h, rank_ne_bot_iff]; exact ha
  rw [rank_of_eligible ha, rank_of_eligible hb, WithBot.coe_inj] at h
  have h3 := congrArg (fun k => (ofLex (ofLex k).2).2) h
  exact UInt8.toNat_inj.1 h3

/-! ## The scan -/

theorem low_byte (b : UInt8) : (b.toUInt32 &&& 0xFF).toUInt8 = b := by
  revert b; decide +kernel

theorem scoreOf_sentinel (h : isSentinel a.id = true) : scoreOf clientMask a = 100000 := if_pos h

/-- The score of an alternate of the page's content. -/
theorem scoreOf_content (h : isSentinel a.id = false) :
    scoreOf clientMask a = scoreAlternate clientMask a.id.toUInt32 := if_neg (by rw [h]; decide)

/-- It is eligible if it scores at all. -/
theorem eligible_content (h : isSentinel a.id = false) :
    Eligible clientMask agentRequest a ↔ 0 < scoreAlternate clientMask a.id.toUInt32 := by
  unfold Eligible; rw [if_neg (by rw [h]; decide)]

/-- The others are eligible for agents only. -/
theorem eligible_sentinel (h : isSentinel a.id = true) :
    Eligible clientMask agentRequest a ↔ agentRequest = true ∧ a.id = kAgentMarkdown := by
  unfold Eligible; rw [if_pos h]

theorem scoreOf_pos (h : Eligible clientMask agentRequest a) : 0 < scoreOf clientMask a := by
  cases hs : isSentinel a.id with
  | true => rw [scoreOf_sentinel hs]; decide
  | false => rw [scoreOf_content hs]; exact (eligible_content hs).1 h

/-- The running state records the choice `o` among the alternates seen. The running mask is
the chosen one's byte, except after the markdown arm. -/
def Records (clientMask : UInt32) (seen : List AlternateInfo) (st : Best) :
    Option AlternateInfo → Prop
  | none => st.idx = none ∧ st.score = 0
  | some a => (∃ i, st.idx = some i ∧ seen[i]? = some a) ∧ st.score = scoreOf clientMask a ∧
      (isSentinel a.id = true ∨ st.mask = a.id)

/-- The running state records a maximum of the alternates seen. -/
def Tracks (clientMask : UInt32) (agentRequest : Bool) (seen : List AlternateInfo)
    (st : Best) : Prop :=
  ∃ o, IsTop (rank clientMask agentRequest) seen o ∧ Records clientMask seen st o

section Step

variable {seen : List AlternateInfo} {st : Best} {o : Option AlternateInfo}

/-- An alternate of higher rank is taken. -/
theorem Tracks.take (ho : IsTop (rank clientMask agentRequest) seen o)
    (hx : rankOf (rank clientMask agentRequest) o < rank clientMask agentRequest x)
    (hi : st.idx = some seen.length) (hsc : st.score = scoreOf clientMask x)
    (hm : isSentinel x.id = true ∨ st.mask = x.id) :
    Tracks clientMask agentRequest (seen ++ [x]) st :=
  ⟨some x, ho.take hx, ⟨seen.length, hi, by simp⟩, hsc, hm⟩

theorem rank_le_of_not_eligible (hx : ¬ Eligible clientMask agentRequest x) :
    rank clientMask agentRequest x ≤ rankOf (rank clientMask agentRequest) o := by
  rw [rank_eq_bot hx]; exact bot_le

/-- At an equal score of a content variant the running mask is not stale. -/
theorem Records.mask_of_score (hst : Records clientMask seen st (some a)) (hs : st.score ≤ 3350) :
    st.mask = a.id := by
  rcases hst.2.2 with hsent | hm
  · rw [hst.2.1, scoreOf_sentinel hsent] at hs
    omega
  · exact hm

variable (ho : IsTop (rank clientMask agentRequest) seen o) (hst : Records clientMask seen st o)
include ho hst

/-- Any other one is passed over. -/
theorem Tracks.keep
    (hx : rank clientMask agentRequest x ≤ rankOf (rank clientMask agentRequest) o) :
    Tracks clientMask agentRequest (seen ++ [x]) st := by
  refine ⟨o, ho.keep hx, ?_⟩
  cases o with
  | none => exact hst
  | some a =>
    obtain ⟨⟨i, hi, ha⟩, hrest⟩ := hst
    refine ⟨⟨i, hi, ?_⟩, hrest⟩
    rw [List.getElem?_append_left (List.getElem?_eq_some_iff.1 ha).1]
    exact ha

/-- The running score never falls below zero, and is the score of the choice. -/
theorem Records.score_nonneg : 0 ≤ st.score := by
  cases o with
  | none => exact hst.2.ge
  | some a =>
    rw [hst.2.1]
    exact (scoreOf_pos (rank_ne_bot_iff.1 (ho.mem a rfl).2)).le

/-- A candidate with a larger score than the running one outranks the choice. -/
theorem rankOf_lt_of_score_lt (hx : Eligible clientMask agentRequest x)
    (hlt : st.score < scoreOf clientMask x) :
    rankOf (rank clientMask agentRequest) o < rank clientMask agentRequest x := by
  rw [rank_of_eligible hx]
  cases o with
  | none => exact WithBot.bot_lt_coe _
  | some a =>
    have ha := rank_ne_bot_iff.1 (ho.mem a rfl).2
    show rank clientMask agentRequest a < _
    rw [rank_of_eligible ha, WithBot.coe_lt_coe, key_lt_key_iff]
    exact .inl (hst.2.1 ▸ hlt)

/-- The markdown arm. -/
theorem scan_markdown (hs : isSentinel x.id = true)
    (hx : Eligible clientMask agentRequest x) :
    Tracks clientMask agentRequest (seen ++ [x])
      (if kAgentMarkdownScore > st.score then
        { st with idx := some seen.length, score := kAgentMarkdownScore } else st) := by
  have hsc : scoreOf clientMask x = kAgentMarkdownScore := scoreOf_sentinel hs
  split_ifs with hgt
  · exact Tracks.take ho (rankOf_lt_of_score_lt ho hst hx (by rw [hsc]; exact hgt)) rfl
      hsc.symm (.inl hs)
  · -- only the markdown version itself scores this high
    refine Tracks.keep ho hst ?_
    cases o with
    | none => rw [hst.2] at hgt; exact absurd (by decide) hgt
    | some a =>
      have ha := rank_ne_bot_iff.1 (ho.mem a rfl).2
      have has : isSentinel a.id = true := by
        by_contra hc
        rw [Bool.not_eq_true] at hc
        have hle : scoreOf clientMask a ≤ 3350 := by
          rw [scoreOf_content hc]; exact scoreAlternate_le _ _
        rw [hst.2.1] at hgt
        unfold kAgentMarkdownScore at hgt
        omega
      have hid : x = a := by
        obtain ⟨_, h1⟩ := (eligible_sentinel hs).1 hx
        obtain ⟨_, h2⟩ := (eligible_sentinel has).1 ha
        cases x; cases a
        simp only at h1 h2
        rw [h1, h2]
      rw [hid]
      exact le_rfl

/-- The content arm. -/
theorem scan_content (hs : isSentinel x.id = false) :
    Tracks clientMask agentRequest (seen ++ [x])
      (if scoreAlternate clientMask x.id.toUInt32 > st.score ∨
          (st.idx.isSome ∧ scoreAlternate clientMask x.id.toUInt32 = st.score ∧
            breaksTie x.id st.mask) then
        ⟨some seen.length, scoreAlternate clientMask x.id.toUInt32, x.id⟩ else st) := by
  have hsc : scoreOf clientMask x = scoreAlternate clientMask x.id.toUInt32 := scoreOf_content hs
  have hle := scoreAlternate_le clientMask x.id.toUInt32
  have h0 := Records.score_nonneg ho hst
  rw [← hsc] at hle ⊢
  split_ifs with hw
  · -- taken: by its score, or by the tie-break among equals
    refine Tracks.take ho ?_ rfl rfl (.inr rfl)
    rcases hw with hgt | ⟨hi, heq, htie⟩
    · refine rankOf_lt_of_score_lt ho hst ((eligible_content hs).2 ?_) hgt
      rw [← hsc]; omega
    · cases o with
      | none => rw [hst.1] at hi; cases hi
      | some a =>
        have ha := rank_ne_bot_iff.1 (ho.mem a rfl).2
        have hm := Records.mask_of_score hst (by omega)
        have hpos := scoreOf_pos ha
        have hx : Eligible clientMask agentRequest x := by
          rw [eligible_content hs, ← hsc, heq, hst.2.1]; exact hpos
        show rank clientMask agentRequest a < _
        rw [rank_of_eligible ha, rank_of_eligible hx, WithBot.coe_lt_coe, key_lt_key_iff]
        exact .inr ⟨by rw [heq, hst.2.1], hm ▸ htie⟩
  · -- kept: then it is not eligible, or ranks no higher
    refine Tracks.keep ho hst ?_
    rw [not_or] at hw
    obtain ⟨hngt, hntie⟩ := hw
    by_cases hx : Eligible clientMask agentRequest x
    · have hpos := scoreOf_pos hx
      cases o with
      | none => rw [hst.2] at hngt; omega
      | some a =>
        have ha := rank_ne_bot_iff.1 (ho.mem a rfl).2
        show _ ≤ rank clientMask agentRequest a
        rw [rank_of_eligible ha, rank_of_eligible hx, WithBot.coe_le_coe]
        refine not_lt.1 fun hlt => ?_
        rw [key_lt_key_iff, ← hst.2.1] at hlt
        rcases hlt with hlt | ⟨heq, htie⟩
        · exact hngt hlt
        · have hm := Records.mask_of_score hst (by omega)
          obtain ⟨⟨i, hi, -⟩, -⟩ := hst
          exact hntie ⟨by rw [hi]; rfl, heq.symm, by rw [hm]; exact htie⟩
    · exact rank_le_of_not_eligible hx

omit ho hst in
/-- **One iteration keeps the maximum.** -/
theorem scanStep_tracks (h : Tracks clientMask agentRequest seen st) (x : AlternateInfo) :
    Tracks clientMask agentRequest (seen ++ [x])
      (scanStep clientMask agentRequest st (x, seen.length)) := by
  obtain ⟨o, ho, hst⟩ := h
  cases hs : isSentinel x.id with
  | true =>
    by_cases hx : Eligible clientMask agentRequest x
    · have hmd := scan_markdown ho hst hs hx
      obtain ⟨hag, hid⟩ := (eligible_sentinel hs).1 hx
      have hne : x.id ≠ kOriginalContent := by rw [hid]; decide
      have hstep : scanStep clientMask agentRequest st (x, seen.length) =
          if kAgentMarkdownScore > st.score then
            { st with idx := some seen.length, score := kAgentMarkdownScore } else st := by
        simp only [scanStep, hs, if_true, hne, if_false, hag, eq_true hid, true_and]
      rw [hstep]
      exact hmd
    · -- every other sentinel is skipped, the durable original first of all
      have : scanStep clientMask agentRequest st (x, seen.length) = st := by
        rw [eligible_sentinel hs] at hx
        simp only [scanStep, hs, if_true]
        split_ifs with h1 h2
        · rfl
        · exact absurd ⟨h2.1, h2.2.1⟩ hx
        · rfl
      rw [this]
      exact Tracks.keep ho hst (rank_le_of_not_eligible hx)
  | false =>
    have hc := scan_content ho hst hs
    simpa only [scanStep, hs, Bool.false_eq_true, if_false] using hc

end Step

/-! ## The choice -/

/-- What `select` answers, as an alternate of the list. -/
def Chosen (alternates : List AlternateInfo) (requestMetadata : Bytes) : Option AlternateInfo → Prop
  | none => select alternates requestMetadata = none
  | some a => ∃ i, select alternates requestMetadata = some i ∧ alternates[i]? = some a

/-- **The scan chooses a maximum**, for every list and every request. -/
theorem select_isTop (l : List AlternateInfo) (md : Bytes) :
    ∃ o, IsTop (rank (clientMaskOf md) (agentRequestOf md)) l o ∧ Chosen l md o := by
  have hinit : Tracks (clientMaskOf md) (agentRequestOf md) [] {} := ⟨none, IsTop.nil, rfl, rfl⟩
  obtain ⟨o, ho, hst⟩ := foldl_zipIdx_invariant
    (fun seen x st (h : Tracks (clientMaskOf md) (agentRequestOf md) seen st) =>
      scanStep_tracks h x)
    hinit l
  have hsel : select l md = (l.zipIdx.foldl
      (scanStep (clientMaskOf md) (agentRequestOf md)) {}).idx := by
    unfold select
    split_ifs with he
    · rw [List.isEmpty_iff.1 he]; rfl
    · rfl
  refine ⟨o, ho, ?_⟩
  cases o with
  | none => exact hsel.trans hst.1
  | some a =>
    obtain ⟨i, hi, ha⟩ := hst.1
    exact ⟨i, hsel.trans hi, ha⟩

/-- What the loop returns is the chosen one. -/
theorem Chosen.of_select {md : Bytes} {o : Option AlternateInfo}
    (hc : Chosen l md o) {i : ℕ} (hi : select l md = some i) : ∃ a, o = some a ∧
      l[i]? = some a := by
  cases o with
  | none =>
    rw [show select l md = none from hc] at hi
    cases hi
  | some a =>
    obtain ⟨j, hj, ha⟩ := hc
    rw [hj, Option.some.injEq] at hi
    exact ⟨a, rfl, hi ▸ ha⟩

/-- The choice outscores everything eligible. -/
theorem score_le_of_isTop (h : IsTop (rank clientMask agentRequest) l (some a))
    (hb : b ∈ l) (he : Eligible clientMask agentRequest b) :
    scoreOf clientMask b ≤ scoreOf clientMask a := by
  have ha := rank_ne_bot_iff.1 (h.mem a rfl).2
  have hle : rank clientMask agentRequest b ≤ rank clientMask agentRequest a := h.le b hb
  rw [rank_of_eligible ha, rank_of_eligible he, WithBot.coe_le_coe] at hle
  by_contra hlt
  exact absurd (key_lt_key_iff.2 (.inl (not_le.1 hlt))) (not_lt.2 hle)

/-- **Listing order does not matter.** Two listings of the same alternates give the same
answer up to which of equal alternates is pointed at; no sentinel but the markdown version
is ever chosen, and that one exactly when an entitled request finds it listed. -/
theorem select_perm (l l' : List AlternateInfo) (hp : l.Perm l') (md : Bytes) :
    ((select l md = none ∧ select l' md = none) ∨
      ∃ i j a b, select l md = some i ∧ l[i]? = some a ∧
        select l' md = some j ∧ l'[j]? = some b ∧ a.id = b.id) ∧
    (∀ i, select l md = some i → ∃ a, l[i]? = some a ∧
      (isSentinel a.id = true → a.id = kAgentMarkdown) ∧ a.id ≠ kOriginalContent) ∧
    ((∃ i a, select l md = some i ∧ l[i]? = some a ∧ a.id = kAgentMarkdown) ↔
      agentRequestOf md = true ∧ ∃ a ∈ l, a.id = kAgentMarkdown) := by
  -- one top of each list; as the lists have the same elements, the two are of one rank
  obtain ⟨o, ho, hc⟩ := select_isTop l md
  obtain ⟨o', ho', hc'⟩ := select_isTop l' md
  have hrank := ho.rankOf_eq ho' hp
  refine ⟨?_, ?_, ?_⟩
  · cases o with
    | none =>
      cases o' with
      | none => exact .inl ⟨hc, hc'⟩
      | some b => exact absurd hrank.symm (ho'.mem b rfl).2
    | some a =>
      have ha := ho.mem a rfl
      cases o' with
      | none => exact absurd hrank ha.2
      | some b =>
        obtain ⟨i, hi, hla⟩ := hc
        obtain ⟨j, hj, hlb⟩ := hc'
        exact .inr ⟨i, j, a, b, hi, hla, hj, hlb, id_eq_of_rank_eq (rank_ne_bot_iff.1 ha.2) hrank⟩
  · intro i hi
    obtain ⟨a, rfl, hla⟩ := hc.of_select hi
    have he := rank_ne_bot_iff.1 (ho.mem a rfl).2
    have hmd : isSentinel a.id = true → a.id = kAgentMarkdown :=
      fun hs => ((eligible_sentinel hs).1 he).2
    refine ⟨a, hla, hmd, fun horig => ?_⟩
    have := hmd (by rw [horig]; decide)
    rw [horig] at this
    exact absurd this (by decide)
  · constructor
    · rintro ⟨i, a, hi, hla, hid⟩
      obtain ⟨a', rfl, hla'⟩ := hc.of_select hi
      rw [hla', Option.some.injEq] at hla
      subst hla
      have he := rank_ne_bot_iff.1 (ho.mem a' rfl).2
      exact ⟨((eligible_sentinel (by rw [hid]; decide)).1 he).1, a', List.mem_of_getElem? hla', hid⟩
    · -- a summary for agents outranks all content, so that the top is one as well
      rintro ⟨hag, b, hb, hid⟩
      have hs : isSentinel b.id = true := by rw [hid]; decide
      have he : Eligible (clientMaskOf md) (agentRequestOf md) b :=
        (eligible_sentinel hs).2 ⟨hag, hid⟩
      cases o with
      | none => exact absurd (ho.eq_none_iff.1 rfl b hb) (rank_ne_bot_iff.2 he)
      | some a =>
        obtain ⟨i, hi, hla⟩ := hc
        have hle := score_le_of_isTop ho hb he
        rw [scoreOf_sentinel hs] at hle
        have has : isSentinel a.id = true := by
          by_contra hns
          rw [Bool.not_eq_true] at hns
          rw [scoreOf_content hns] at hle
          have := scoreAlternate_le (clientMaskOf md) a.id.toUInt32
          omega
        exact ⟨i, a, hi, hla, ((eligible_sentinel has).1 (rank_ne_bot_iff.1 (ho.mem a rfl).2)).2⟩

/-- Two listings of a markdown version among ties, for an entitled request. -/
theorem select_perm_markdown :
    let l : List AlternateInfo := [⟨0x08⟩, ⟨0x7C⟩, ⟨0x0C⟩, ⟨0x04⟩]
    let l' : List AlternateInfo := [⟨0x0C⟩, ⟨0x04⟩, ⟨0x08⟩, ⟨0x7C⟩]
    l.Perm l' ∧ ∃ i j a b, select l [0, 0, 0, 0, 1] = some i ∧ l[i]? = some a ∧
      select l' [0, 0, 0, 0, 1] = some j ∧ l'[j]? = some b ∧ a.id = b.id := by
  intro l l'
  have hp : l.Perm l' := by decide
  refine ⟨hp, ?_⟩
  rcases (select_perm l l' hp [0, 0, 0, 0, 1]).1 with h | h
  · exact absurd h.1 (by decide)
  · exact h

/-! ## Preferences -/

/-- A content variant is eligible exactly when the client can take it. -/
theorem eligible_iff_servable (hs : isSentinel a.id = false) :
    Eligible clientMask agentRequest a ↔ Servable clientMask a.id.toUInt32 := by
  rw [eligible_content hs, scoreAlternate_pos_iff (by rw [low_byte]; exact hs)]

/-- **What the choice prefers**, for every set of content variants: only what the client
can take; a vector image if there is one; else the client's viewport; reduced bytes for a
client that did not ask for them only if there are no others at its viewport. Nothing is
chosen only if nothing can be taken. -/
theorem select_prefers (l : List AlternateInfo) (md : Bytes)
    (hl : ∀ a ∈ l, isSentinel a.id = false) :
    (∀ i, select l md = some i → ∃ a, l[i]? = some a ∧
      EncodingServable (clientMaskOf md) a.id.toUInt32 ∧
      FormatServable (clientMaskOf md) a.id.toUInt32 ∧
      ((∃ b ∈ l, isSvg b.id.toUInt32 = true ∧ EncodingServable (clientMaskOf md) b.id.toUInt32) →
        isSvg a.id.toUInt32 = true) ∧
      ((¬ ∃ b ∈ l, isSvg b.id.toUInt32 = true ∧ EncodingServable (clientMaskOf md) b.id.toUInt32) →
        (∃ b ∈ l, Servable (clientMaskOf md) b.id.toUInt32 ∧
          extractViewport b.id.toUInt32 = extractViewport (clientMaskOf md)) →
        extractViewport a.id.toUInt32 = extractViewport (clientMaskOf md)) ∧
      (extractSaveData (clientMaskOf md) = 0 →
        (∃ b ∈ l, Servable (clientMaskOf md) b.id.toUInt32 ∧ extractSaveData b.id.toUInt32 = 0 ∧
          extractViewport b.id.toUInt32 = extractViewport (clientMaskOf md)) →
        ¬ (isSvg a.id.toUInt32 = false ∧ extractSaveData a.id.toUInt32 = 1))) ∧
    (select l md = none → ∀ a ∈ l, ¬ Servable (clientMaskOf md) a.id.toUInt32) := by
  obtain ⟨o, ho, hc⟩ := select_isTop l md
  set c := clientMaskOf md
  refine ⟨?_, ?_⟩
  · intro i hi
    obtain ⟨a, rfl, hla⟩ := hc.of_select hi
    have hal := List.mem_of_getElem? hla
    have hea := rank_ne_bot_iff.1 (ho.mem a rfl).2
    obtain ⟨henc, hfmt⟩ := (eligible_iff_servable (hl a hal)).1 hea
    obtain ⟨-, araster, -, aclash, -, areduced, -⟩ :=
      score_tiers ((eligible_content (hl a hal)).1 hea)
    -- every servable alternate scores at most what the choice does
    have hbest : ∀ b ∈ l, Servable c b.id.toUInt32 → 0 < scoreAlternate c b.id.toUInt32 ∧
        scoreAlternate c b.id.toUInt32 ≤ scoreAlternate c a.id.toUInt32 := by
      intro b hb hsv
      have heb : Eligible c (agentRequestOf md) b := (eligible_iff_servable (hl b hb)).2 hsv
      have hle := score_le_of_isTop ho hb heb
      rw [scoreOf_content (hl b hb), scoreOf_content (hl a hal)] at hle
      exact ⟨(eligible_content (hl b hb)).1 heb, hle⟩
    refine ⟨a, hla, henc, hfmt, ?_, ?_, ?_⟩
    · rintro ⟨b, hb, hsvg, hbe⟩
      obtain ⟨hpos, hle⟩ := hbest b hb ⟨hbe, .inl hsvg⟩
      have hb' := (score_tiers hpos).1 hsvg
      by_contra hns
      have := araster (by simpa using hns)
      omega
    · rintro hno ⟨b, hb, hsv, hvp⟩
      obtain ⟨hpos, hle⟩ := hbest b hb hsv
      have hb' := (score_tiers hpos).2.2.1 hvp.symm
      have hns : isSvg a.id.toUInt32 = false := by
        by_contra h
        exact hno ⟨a, hal, by simpa using h, henc⟩
      by_contra hne
      have := aclash hns (Ne.symm hne)
      omega
    · rintro hsd ⟨b, hb, hsv, hbsd, hvp⟩ ⟨hns, ha1⟩
      obtain ⟨hpos, hle⟩ := hbest b hb hsv
      have hb' := (score_tiers hpos).2.2.2.2.1 hvp.symm (by rw [hsd, hbsd])
      have := areduced hns (by rw [hsd, ha1]; decide) ha1
      omega
  · intro hnone a ha hsv
    cases o with
    | some b =>
      obtain ⟨i, hi, -⟩ := hc
      rw [hnone] at hi
      cases hi
    | none =>
      exact rank_ne_bot_iff.2 ((eligible_iff_servable (hl a ha)).2 hsv) (ho.eq_none_iff.1 rfl a ha)

/-- A phone with WebP, a desktop WebP and its reduced phone sibling stored. -/
theorem select_prefers_phone :
    let l : List AlternateInfo := [⟨0x09⟩, ⟨0x21⟩, ⟨0x00⟩]
    (∀ a ∈ l, isSentinel a.id = false) ∧ select l [1, 0, 0, 0] = some 2 ∧
      ¬ (isSvg 0 = false ∧ extractSaveData 0 = 1) := by
  intro l
  have hl : ∀ a ∈ l, isSentinel a.id = false := by decide
  have hsel : select l [1, 0, 0, 0] = some 2 := by decide
  obtain ⟨a, ha, -, -, -, -, h4⟩ := (select_prefers l [1, 0, 0, 0] hl).1 2 hsel
  cases ha
  exact ⟨hl, hsel, h4 (by decide)
    ⟨⟨0x00⟩, by decide, ⟨.inl (by decide), .inr (.inl (by decide))⟩, by decide, by decide⟩⟩

end PageSpeed.PageSpeedSelector
