import PageSpeed.Spec.BrowserCoverage
import PageSpeed.Proof.UrlNormalizer

/-!
# The three parts of a stylesheet

Merging leaves ranges in order that cover the same bytes (`merged_mergeRanges`). With ranges in
order the critical and the deferred text are the bytes of their parts (`solid_critical`,
`solid_deferred`). The unused text is made from the last report alone (`solid_unused`): it is its
part when that report repeats what was used at the first paint. A text that stands there twice is
cut up once (`unseenSheets`), with the ranges of its first sheet.
-/

namespace PageSpeed.Coverage

open Wire Choice List
open Choice.Ranges (covers pick slice minus)

variable {a b r last : CoverageRange} {rs ranges merged fcp all : List CoverageRange}
  {sheetId text acc : Bytes} {p : ℕ}

/-! ## The order of the sort -/

/-- The order of the sort: by sheet, and then by start. -/
def CoverageRange.rank (r : CoverageRange) : List ℕ ×ₗ ℕ :=
  toLex (r.styleSheetId.map UInt8.toNat, r.startOffset)

/-- The comparison of the source is a linear order on ranks. -/
theorem rangeLess_iff (a b : CoverageRange) : rangeLess a b = true ↔ a.rank < b.rank := by
  unfold rangeLess CoverageRange.rank bytesLess
  rw [Prod.Lex.toLex_lt_toLex]
  by_cases hid : a.styleSheetId = b.styleSheetId
  · simp [hid]
  · simp [hid, map_toNat_inj]

theorem start_le_of_rank (h : a.rank ≤ b.rank) (hid : a.styleSheetId = b.styleSheetId) :
    a.startOffset ≤ b.startOffset := by
  unfold CoverageRange.rank at h
  rw [Prod.Lex.toLex_le_toLex] at h
  simpa [hid] using h

/-- Between two ranges of one sheet there is no other sheet. -/
theorem sheet_eq_of_between (hab : a.rank ≤ r.rank) (hrb : r.rank ≤ b.rank)
    (hid : a.styleSheetId = b.styleSheetId) :
    a.styleSheetId = r.styleSheetId := by
  unfold CoverageRange.rank at hab hrb
  rw [Prod.Lex.toLex_le_toLex] at hab hrb
  rw [← hid] at hrb
  rw [← map_toNat_inj]
  refine le_antisymm ?_ ?_
  · rcases hab with h | h
    · exact h.le
    · exact h.1.le
  · rcases hrb with h | h
    · exact h.le
    · exact h.1.le

/-- A stable sort is one of those that the results are about. -/
def stableSort : Sorting rangeLess := Sorting.merge CoverageRange.rank rangeLess_iff

/-! ## Ranges that are covered -/

theorem covers_intervalsOf_cons : covers (intervalsOf sheetId (r :: rs)) p = true ↔
    (r.styleSheetId = sheetId ∧ r.startOffset ≤ p ∧ p < r.endOffset) ∨
      covers (intervalsOf sheetId rs) p = true := by
  by_cases hid : r.styleSheetId = sheetId
  · simp [intervalsOf, hid, Ranges.covers_cons, CoverageRange.interval]
  · simp [intervalsOf, hid]

/-- What ranges cover does not depend on their order. -/
theorem covers_intervalsOf_perm (h : rs.Perm ranges) :
    covers (intervalsOf sheetId rs) p = covers (intervalsOf sheetId ranges) p :=
  ((h.filter _).map _).any_eq

/-- No range is empty. -/
def Proper (ranges : List CoverageRange) : Prop := ∀ r ∈ ranges, r.startOffset < r.endOffset

/-- A parsed range is not empty. -/
theorem proper_parse (coverage : Option (List CoverageEntry)) :
    Proper (parseCoverageRanges coverage) := by
  intro r hr
  obtain ⟨entry, -, hentry⟩ := mem_filterMap.1 hr
  split_ifs at hentry with hused hok
  cases hentry
  exact hok.2

/-! ## Merging -/

/-- Joining the second range to the first leaves the ranges in order. -/
theorem pairwise_join {x : CoverageRange} (stop : ℕ)
    (h : (last :: x :: rs).Pairwise fun a b => a.rank ≤ b.rank) :
    (({ last with endOffset := stop } : CoverageRange) :: rs).Pairwise fun a b =>
      a.rank ≤ b.rank := by
  obtain ⟨hlast, hrest⟩ := pairwise_cons.1 h
  exact pairwise_cons.2 ⟨fun y hy => hlast y (mem_cons_of_mem _ hy), (pairwise_cons.1 hrest).2⟩

/-- Every merged range stands behind the one the loop starts with. -/
theorem rank_le_of_mem_mergeLoop (h : (last :: rs).Pairwise fun a b => a.rank ≤ b.rank) :
    ∀ r ∈ mergeLoop last rs, last.rank ≤ r.rank := by
  induction rs generalizing last with
  | nil =>
    intro r hr
    rw [mem_singleton.1 hr]
  | cons x rs ih =>
    obtain ⟨hlast, hrest⟩ := pairwise_cons.1 h
    rw [mergeLoop]
    split_ifs with hjoin
    · exact fun r hr => ih (pairwise_join (max last.endOffset x.endOffset) h) r hr
    · refine forall_mem_cons.2 ⟨le_rfl, fun r hr => ?_⟩
      exact (hlast x mem_cons_self).trans (ih hrest r hr)

theorem proper_mergeLoop (h : Proper (last :: rs)) : Proper (mergeLoop last rs) := by
  induction rs generalizing last with
  | nil => exact h
  | cons x rs ih =>
    obtain ⟨hlast, hrest⟩ := forall_mem_cons.1 h
    rw [mergeLoop]
    split_ifs with hjoin
    · refine ih (forall_mem_cons.2 ⟨?_, (forall_mem_cons.1 hrest).2⟩)
      exact lt_of_lt_of_le hlast (le_max_left _ _)
    · exact forall_mem_cons.2 ⟨hlast, ih hrest⟩

/-- Merged ranges of one sheet do not touch. -/
theorem pairwise_mergeLoop (h : (last :: rs).Pairwise fun a b => a.rank ≤ b.rank) :
    (mergeLoop last rs).Pairwise fun a b =>
      a.rank ≤ b.rank ∧ (a.styleSheetId = b.styleSheetId → a.endOffset < b.startOffset) := by
  induction rs generalizing last with
  | nil => simp [mergeLoop]
  | cons x rs ih =>
    obtain ⟨hlast, hrest⟩ := pairwise_cons.1 h
    rw [mergeLoop]
    split_ifs with hjoin
    · exact ih (pairwise_join (max last.endOffset x.endOffset) h)
    · refine pairwise_cons.2 ⟨fun r hr => ?_, ih hrest⟩
      have hx := hlast x mem_cons_self
      have hr' := rank_le_of_mem_mergeLoop hrest r hr
      refine ⟨hx.trans hr', fun hid => ?_⟩
      -- the next range is of the same sheet, so it was not joined because it starts later
      have hsheet := sheet_eq_of_between hx hr' hid
      have hstart := start_le_of_rank hr' (hsheet.symm.trans hid)
      have hgap : ¬ x.startOffset ≤ last.endOffset := fun hle => hjoin ⟨hsheet.symm, hle⟩
      omega

/-- Merging covers nothing more and nothing less. -/
theorem covers_mergeLoop (h : (last :: rs).Pairwise fun a b => a.rank ≤ b.rank) :
    covers (intervalsOf sheetId (mergeLoop last rs)) p = true ↔
      covers (intervalsOf sheetId (last :: rs)) p = true := by
  induction rs generalizing last with
  | nil => rfl
  | cons x rs ih =>
    obtain ⟨hlast, hrest⟩ := pairwise_cons.1 h
    rw [mergeLoop]
    split_ifs with hjoin
    · have hstart := start_le_of_rank (hlast x mem_cons_self) hjoin.1.symm
      rw [ih (pairwise_join (max last.endOffset x.endOffset) h)]
      simp only [covers_intervalsOf_cons, hjoin.1]
      rw [← or_assoc, ← and_or_left]
      refine or_congr_left (and_congr_right fun _ => ?_)
      omega
    · rw [covers_intervalsOf_cons, ih hrest, ← covers_intervalsOf_cons]

variable (sort : Sorting rangeLess)

/-- Merging makes no empty range. -/
theorem proper_mergeRanges (h : Proper ranges) : Proper (mergeRanges sort ranges) := by
  unfold mergeRanges
  split_ifs with hlen
  · exact h
  · have hsub := (sort.perm ranges).subset
    cases hrun : sort.run ranges with
    | nil => simp [Proper]
    | cons first rest =>
      rw [hrun] at hsub
      exact proper_mergeLoop fun r hr => h r (hsub hr)

/-- **What merging leaves.** -/
theorem merged_mergeRanges (h : Proper ranges) : Merged ranges (mergeRanges sort ranges) := by
  have hproper := proper_mergeRanges sort h
  unfold mergeRanges at *
  split_ifs at * with hlen
  · have hone : ∀ R : CoverageRange → CoverageRange → Prop, ranges.Pairwise R := by
      intro R
      rcases ranges with _ | ⟨r, _ | ⟨r', rs⟩⟩
      · exact .nil
      · exact pairwise_singleton R r
      · simp at hlen
    exact ⟨hone _, hone _, fun _ _ => rfl⟩
  · have hperm := sort.perm ranges
    have hsorted := sort.pairwise_rank rangeLess_iff ranges
    cases hrun : sort.run ranges with
    | nil =>
      rw [hrun] at hperm
      rw [← hperm.nil_eq] at hlen
      simp at hlen
    | cons first rest =>
      rw [hrun] at hperm hsorted
      simp only [hrun] at hproper
      have hpairs := pairwise_mergeLoop hsorted
      refine ⟨?_, hpairs.imp And.right, fun sheetId p => ?_⟩
      · refine hpairs.imp_of_mem fun {a b} ha _ hab =>
          (rangeLess_iff a b).2 (lt_of_le_of_ne hab.1 fun heq => ?_)
        -- equal ranks mean the same sheet and start, but the second starts behind the end of the
        -- first
        have hpair := toLex_inj.1 heq
        have hid := map_toNat_inj.1 (congrArg Prod.fst hpair)
        have hstart := congrArg Prod.snd hpair
        have hlt := hproper a ha
        have hgap := hab.2 hid
        omega
      · rw [← covers_intervalsOf_perm hperm, Bool.eq_iff_iff]
        exact covers_mergeLoop hsorted

/-- The merged ranges of a sheet are in order. -/
theorem Merged.inOrder (h : Merged ranges merged) (hproper : Proper merged) (sheetId : Bytes) :
    Ranges.InOrder (intervalsOf sheetId merged) := by
  constructor
  · refine pairwise_map.2 ((h.disjoint.filter _).imp_of_mem fun {a b} ha hb hab => ?_)
    have hida := of_decide_eq_true (mem_filter.1 ha).2
    have hidb := of_decide_eq_true (mem_filter.1 hb).2
    exact (hab (hida.trans hidb.symm)).le
  · intro r hr
    obtain ⟨s, hs, rfl⟩ := mem_map.1 hr
    exact (hproper s (mem_filter.1 hs).1).le

/-! ## The texts of a sheet -/

@[simp] theorem solid_nil : solid [] = [] := rfl

theorem solid_append (x y : Bytes) : solid (x ++ y) = solid x ++ solid y := filter_append x y

/-- A text of white space has nothing solid. -/
theorem solid_eq_nil {region : Bytes} (h : region.all isRegionSpace = true) :
    solid region = [] := by
  refine filter_eq_nil_iff.2 fun c hc => ?_
  simp [all_eq_true.1 h c hc]

/-- The line feed between two pieces does not count. -/
theorem solid_appendLine (result piece : Bytes) : solid (appendLine result piece) = solid result ++
    solid piece := by
  have hfeed : solid [0x0A] = [] := by decide
  unfold appendLine
  split_ifs with hresult
  · simp [hresult]
  · rw [solid_append, solid_append, hfeed, append_nil]

/-- What is put between pieces is not solid. -/
theorem solid_appendCss (css piece : Bytes) : solid (appendCss css piece) = solid css ++
    solid piece := by
  unfold appendCss
  split_ifs with hpiece
  · simp [hpiece]
  · exact solid_appendLine css piece

theorem slice_eq_nil {i j : ℕ} (h : text.length ≤ i ∨ min j text.length ≤ i) :
    slice text (i, j) = [] := by
  apply length_eq_zero_iff.1
  simp only [slice, length_take, length_drop]
  omega

theorem slice_min (i j : ℕ) : slice text (i, min j text.length) = slice text (i, j) := by
  unfold slice
  rw [take_eq_take_iff, length_drop]
  omega

/-- The ranges of a sheet, wherever they reach, give the slices of the text. -/
theorem solid_extractRanges (text : Bytes) (ranges : List CoverageRange) (sheetId : Bytes) :
    solid (extractRanges text ranges sheetId) =
      solid ((intervalsOf sheetId ranges).flatMap (slice text)) := by
  suffices h : ∀ acc, solid (ranges.foldl _ acc) = solid acc ++
    solid ((intervalsOf sheetId ranges).flatMap (slice text))
    from h []
  induction ranges with
  | nil => intro acc; simp [intervalsOf]
  | cons r ranges ih =>
    intro acc
    rw [foldl_cons, ih]
    by_cases hid : r.styleSheetId = sheetId
    · have hcons : intervalsOf sheetId (r :: ranges) = (r.startOffset, r.endOffset) ::
          intervalsOf sheetId ranges := by
        simp [intervalsOf, hid, CoverageRange.interval]
      rw [hcons, flatMap_cons, solid_append, ← append_assoc, if_neg (not_not.2 hid)]
      congr 1
      dsimp only
      split_ifs with hpast hstop
      · rw [slice_eq_nil (.inl hpast), solid_nil, append_nil]
      · rw [solid_appendLine, slice_min]
      · rw [slice_eq_nil (.inr (not_lt.1 hstop)), solid_nil, append_nil]
    · have hcons : intervalsOf sheetId (r :: ranges) = intervalsOf sheetId ranges := by
        simp [intervalsOf, hid]
      rw [hcons, if_pos hid]

/-- Ranges in order give the text that they cover. -/
theorem solid_extractRanges_inOrder (h : Ranges.InOrder (intervalsOf sheetId ranges)) :
    solid (extractRanges text ranges sheetId) =
      solid (pick (covers (intervalsOf sheetId ranges)) 0 text) := by
  rw [solid_extractRanges, Ranges.flatMap_slice h]

/-- The deferred ranges are the used ones less the critical ones. -/
theorem intervalsOf_computeDeferredRanges (all fcp : List CoverageRange) (sheetId : Bytes) :
    intervalsOf sheetId (computeDeferredRanges all fcp sheetId) =
      (intervalsOf sheetId all).flatMap fun r => minus r.1 r.2 (intervalsOf sheetId fcp) := by
  have hkept : (computeDeferredRanges all fcp sheetId).filter (fun r => r.styleSheetId = sheetId) =
      computeDeferredRanges all fcp sheetId := by
    refine filter_eq_self.2 fun r hr => ?_
    obtain ⟨x, -, hx⟩ := mem_flatMap.1 hr
    obtain ⟨y, -, rfl⟩ := mem_map.1 hx
    simp
  rw [intervalsOf, hkept, computeDeferredRanges, map_flatMap]
  nth_rewrite 3 [intervalsOf]
  rw [flatMap_map]
  refine flatMap_congr fun r _ => ?_
  rw [map_map]
  exact map_id _

/-- The regions between used bytes, without whitespace, are the bytes that are not used. -/
theorem solid_extractUnusedRanges (text : Bytes) (ranges : List CoverageRange) (sheetId : Bytes) :
    solid (extractUnusedRanges text ranges sheetId) =
      solid (pick (fun p => !covers (intervalsOf sheetId ranges) p) 0 text) := by
  have hfold : ∀ (regions : List Bytes) acc, solid (regions.foldl (fun result region =>
      if region.all isRegionSpace then result
      else appendLine result region) acc) = solid acc ++ solid regions.flatten := by
    intro regions
    induction regions with
    | nil => intro acc; simp
    | cons region regions ih =>
      intro acc
      rw [foldl_cons, ih, flatten_cons, solid_append, ← append_assoc]
      congr 1
      split_ifs with hspace
      · rw [solid_eq_nil hspace, append_nil]
      · exact solid_appendLine acc region
  unfold extractUnusedRanges
  rw [hfold, ← map_flatten, flatten_splitOnP]
  rfl

/-! ## The texts of all sheets -/

/-- **The loop over the sheets** puts the texts of each behind those of the earlier ones. -/
theorem solid_addSheet_foldl (fcp all : List CoverageRange) (sheets : List (Bytes × Bytes))
    (css : BrowserCssResult) :
    let out := sheets.foldl (BrowserCssResult.addSheet fcp all) css
    solid out.criticalCss = solid css.criticalCss ++
      sheets.flatMap (fun s => solid (extractRanges s.2 fcp s.1)) ∧
    solid out.deferredCss = solid css.deferredCss ++
      sheets.flatMap (fun s => solid (extractRanges s.2 (computeDeferredRanges all fcp s.1) s.1)) ∧
    solid out.unusedCss = solid css.unusedCss ++
      sheets.flatMap (fun s => solid (extractUnusedRanges s.2 all s.1)) := by
  induction sheets generalizing css with
  | nil => simp
  | cons s sheets ih =>
    obtain ⟨hcritical, hdeferred, hunused⟩ := ih (css.addSheet fcp all s)
    dsimp only
    rw [foldl_cons, hcritical, hdeferred, hunused]
    simp only [BrowserCssResult.addSheet, solid_appendCss, flatMap_cons, append_assoc, and_self]

/-- Texts that are each a part of another make the same whole only when they are the same. -/
theorem flatMap_eq_iff {σ : Type} {f g : σ → Bytes} {l : List σ} (h : ∀ x, (g x).Sublist (f x)) :
    l.flatMap f = l.flatMap g ↔ ∀ x ∈ l, f x = g x := by
  refine ⟨fun heq => ?_, flatMap_congr⟩
  induction l with
  | nil => simp
  | cons x l ih =>
    rw [flatMap_cons, flatMap_cons] at heq
    have hrest : (l.flatMap g).Sublist (l.flatMap f) := by
      clear ih heq
      induction l with
      | nil => simp
      | cons y l ih => exact (h y).append ih
    have hlen := congrArg List.length heq
    rw [length_append, length_append] at hlen
    have hx : f x = g x := by
      refine ((h x).eq_of_length_le ?_).symm
      have hle := hrest.length_le
      omega
    rw [hx] at heq
    exact forall_mem_cons.2 ⟨hx, ih (append_cancel_left heq)⟩

section Reports

variable (sort : Sorting rangeLess) (fcpCoverage ruleUsage : Option (List CoverageEntry))
  (sheet : Bytes × Bytes)

/-- The critical text is what was used at the first paint. -/
theorem solid_critical : solid
    (extractRanges sheet.2 (mergeRanges sort (parseCoverageRanges fcpCoverage)) sheet.1) =
    bytesIn (parseCoverageRanges fcpCoverage) (parseCoverageRanges ruleUsage) .critical sheet := by
  have hproper := proper_parse fcpCoverage
  have hmerged := merged_mergeRanges sort hproper
  rw [solid_extractRanges_inOrder
    (hmerged.inOrder (proper_mergeRanges sort hproper) sheet.1), bytesIn]
  congr 1
  refine Ranges.pick_congr fun p => ?_
  rw [hmerged.union, Bool.eq_iff_iff, decide_eq_true_iff, partAt]
  split_ifs <;> simp_all

/-- The deferred text is what was used only later. -/
theorem solid_deferred : solid (extractRanges sheet.2 (computeDeferredRanges
      (mergeRanges sort (parseCoverageRanges ruleUsage))
        (mergeRanges sort (parseCoverageRanges fcpCoverage)) sheet.1)
      sheet.1) =
    bytesIn (parseCoverageRanges fcpCoverage) (parseCoverageRanges ruleUsage) .deferred sheet := by
  have hfcp := merged_mergeRanges sort (proper_parse fcpCoverage)
  have hall := merged_mergeRanges sort (proper_parse ruleUsage)
  have hfcpOrder := hfcp.inOrder (proper_mergeRanges sort (proper_parse fcpCoverage)) sheet.1
  have hallOrder := hall.inOrder (proper_mergeRanges sort (proper_parse ruleUsage)) sheet.1
  have horder := Ranges.inOrder_flatMap_minus hallOrder hfcpOrder
  rw [← intervalsOf_computeDeferredRanges] at horder
  rw [solid_extractRanges_inOrder horder, intervalsOf_computeDeferredRanges, bytesIn]
  congr 1
  refine Ranges.pick_congr fun p => ?_
  rw [Bool.eq_iff_iff, Ranges.covers_flatMap_minus hfcpOrder, hall.union, hfcp.union,
    decide_eq_true_iff, partAt]
  split_ifs <;> simp_all

/-- The unused text is made of what the last report does not have. -/
theorem solid_unused :
    solid (extractUnusedRanges sheet.2 (mergeRanges sort (parseCoverageRanges ruleUsage)) sheet.1) =
    solid (pick (fun p => !covers (intervalsOf sheet.1 (parseCoverageRanges ruleUsage)) p) 0
      sheet.2) := by
  have hall := merged_mergeRanges sort (proper_parse ruleUsage)
  rw [solid_extractUnusedRanges]
  congr 1
  exact Ranges.pick_congr fun p => by rw [hall.union]

end Reports

/-- What was used of the sheets at the first paint is in the last report too, whitespace apart. -/
def FirstPaintKept (fcp all : List CoverageRange) (sheets : List (Bytes × Bytes)) : Prop :=
  ∀ sheet ∈ sheets, ∀ p c, sheet.2[p]? = some c → isRegionSpace c = false →
    covers (intervalsOf sheet.1 fcp) p = true → covers (intervalsOf sheet.1 all) p = true

/-- The positions that are not in the last report hold those of the unused part. -/
theorem not_covers_of_unused (h : partAt fcp all sheetId p = .unused) :
    covers (intervalsOf sheetId all) p = false := by
  unfold partAt at h
  split_ifs at h with hfcp hall
  exact Bool.eq_false_iff.2 hall

theorem unused_iff (h : covers (intervalsOf sheetId all) p = false) :
    partAt fcp all sheetId p = .unused ↔ covers (intervalsOf sheetId fcp) p = false := by
  unfold partAt
  split_ifs <;> simp_all

/-- The unused text is exact if what was used at the first paint is in the last report. -/
theorem filter_unused_eq_iff (fcp all : List CoverageRange) (sheet : Bytes × Bytes) :
    solid (pick (fun p => !covers (intervalsOf sheet.1 all) p) 0 sheet.2) =
      bytesIn fcp all .unused sheet ↔ ∀ p c, sheet.2[p]? = some c → isRegionSpace c = false →
        covers (intervalsOf sheet.1 fcp) p = true → covers (intervalsOf sheet.1 all) p = true := by
  unfold bytesIn solid
  rw [Ranges.filter_pick_eq_iff _
    fun p hp => by simpa using not_covers_of_unused (of_decide_eq_true hp)]
  refine forall_congr' fun p => forall_congr' fun c => imp_congr_right fun _ => ?_
  simp only [Bool.not_eq_true', decide_eq_true_eq]
  refine imp_congr_right fun _ => ?_
  cases hall : covers (intervalsOf sheet.1 all) p with
  | true => simp
  | false =>
    rw [unused_iff hall]
    simp

/-- The unused text has all that it should, and perhaps more. -/
theorem sublist_unused (fcp all : List CoverageRange) (sheet : Bytes × Bytes) :
    (bytesIn fcp all .unused sheet).Sublist
      (solid (pick (fun p => !covers (intervalsOf sheet.1 all) p) 0 sheet.2)) := by
  refine List.Sublist.filter _ (List.Sublist.map _ (monotone_filter_right _ fun x hx => ?_))
  simpa using not_covers_of_unused (of_decide_eq_true hx)

/-! ## Equal texts -/

/-- No two sheets have the same text, but for texts of whitespace only. -/
def Distinct (texts : List (Bytes × Bytes)) : Prop :=
  texts.Pairwise fun a b => a.2 = b.2 → solid a.2 = []

variable {seen : List Bytes} {texts : List (Bytes × Bytes)}

/-- The sheets that are cut up are among those given. -/
theorem unseenSheets_sublist (seen : List Bytes) (texts : List (Bytes × Bytes)) :
    (unseenSheets seen texts).Sublist texts := by
  induction texts generalizing seen with
  | nil => exact .slnil
  | cons s texts ih =>
    rw [unseenSheets]
    split
    · exact (ih seen).cons s
    · exact (ih _).cons_cons s

/-- When the texts are distinct nothing is lost with the sheets that are left out. -/
theorem flatMap_unseenSheets {F : Bytes × Bytes → Bytes} (hF : ∀ s, solid s.2 = [] → F s = [])
    (h : Distinct texts)
    (hseen : ∀ s ∈ texts, s.2 ∈ seen → solid s.2 = []) : (unseenSheets seen texts).flatMap F =
      texts.flatMap F := by
  induction texts generalizing seen with
  | nil => rfl
  | cons s texts ih =>
    obtain ⟨hs, htexts⟩ := pairwise_cons.1 h
    obtain ⟨hblank, hrest⟩ := forall_mem_cons.1 hseen
    rw [unseenSheets]
    split_ifs with hmem
    · rw [ih htexts hrest, flatMap_cons, hF s (hblank hmem), nil_append]
    · rw [flatMap_cons, flatMap_cons, ih htexts fun t ht htseen => ?_]
      rcases mem_cons.1 htseen with heq | htseen
      · rw [heq, hs t ht heq.symm]
      · exact hrest t ht htseen

/-- Where the sheets that are left out hold no byte that counts, the texts are distinct. -/
theorem distinct_of_length_eq (h : ((unseenSheets seen texts).flatMap fun s => solid s.2).length =
      (texts.flatMap fun s => solid s.2).length) :
    Distinct texts ∧ ∀ s ∈ texts, s.2 ∈ seen → solid s.2 = [] := by
  induction texts generalizing seen with
  | nil => exact ⟨.nil, nofun⟩
  | cons s texts ih =>
    rw [unseenSheets] at h
    split_ifs at h with hmem
    · have hle := ((unseenSheets_sublist seen texts).flatMap fun s => solid s.2).length_le
      rw [flatMap_cons, length_append] at h
      obtain ⟨hdistinct, hseen⟩ := @ih seen (by omega)
      have hblank : solid s.2 = [] := length_eq_zero_iff.1 (by omega)
      exact ⟨pairwise_cons.2 ⟨fun _ _ _ => hblank, hdistinct⟩,
        forall_mem_cons.2 ⟨fun _ => hblank, hseen⟩⟩
    · rw [flatMap_cons, flatMap_cons, length_append, length_append] at h
      obtain ⟨hdistinct, hseen⟩ := @ih (s.2 :: seen) (by omega)
      refine ⟨pairwise_cons.2 ⟨fun t ht heq => ?_, hdistinct⟩,
        forall_mem_cons.2 ⟨fun hin => absurd hin hmem, ?_⟩⟩
      · rw [heq, hseen t ht (mem_cons.2 (.inl heq.symm))]
      · exact fun t ht htseen => hseen t ht (mem_cons_of_mem _ htseen)

theorem solid_pick_eq_nil {P : ℕ → Bool} (h : solid text = []) : solid (pick P 0 text) = [] := by
  have hsub : (pick P 0 text).Sublist text := by
    have hmap := (filter_sublist (p := fun x : UInt8 × ℕ => P x.2) (l := text.zipIdx)).map Prod.fst
    rwa [zipIdx_map_fst] at hmap
  exact sublist_nil.1 (h ▸ hsub.filter _)

/-- **Each byte that counts is in one of the three parts.** -/
theorem length_parts (fcp all : List CoverageRange) (sheet : Bytes × Bytes) :
    (bytesIn fcp all .critical sheet).length + (bytesIn fcp all .deferred sheet).length +
      (bytesIn fcp all .unused sheet).length = (solid sheet.2).length := by
  have hparts : ∀ (g : ℕ → Part) (n : ℕ) (text : Bytes),
    (solid (pick (fun p => g p = .critical) n text)).length +
      (solid (pick (fun p => g p = .deferred) n text)).length +
      (solid (pick (fun p => g p = .unused) n text)).length = (solid text).length := by
    intro g n text
    induction text generalizing n with
    | nil => rfl
    | cons c text ih =>
      have hc : solid (c :: text) = solid [c] ++ solid text := solid_append [c] text
      rw [hc, length_append, ← ih (n + 1)]
      simp only [Ranges.pick_cons, solid_append, length_append]
      cases g n <;> simp <;> omega
  exact hparts _ 0 _

/-- **The three texts are the three parts** of all the sheets when the last report has everything
that was used at the first paint and no text stands there twice; and when one of the two holds, the
other one is needed. The merged ranges are always in order, apart, and cover what was reported. -/
theorem splits_iff (sort : Sorting rangeLess) (fcpCoverage ruleUsage : Option (List CoverageEntry))
    (texts : List (Bytes × Bytes)) :
    let fcp := parseCoverageRanges fcpCoverage
    let all := parseCoverageRanges ruleUsage
    let css := reconstruct sort fcpCoverage ruleUsage texts
    (∀ coverage : Option (List CoverageEntry),
      Merged (parseCoverageRanges coverage) (mergeRanges sort (parseCoverageRanges coverage))) ∧
    (Distinct texts → (Splits fcp all texts css ↔ FirstPaintKept fcp all texts)) ∧
    (FirstPaintKept fcp all texts → (Splits fcp all texts css ↔ Distinct texts)) := by
  intro fcp all css
  obtain ⟨hcritical, hdeferred, hunused⟩ :=
    solid_addSheet_foldl (mergeRanges sort fcp) (mergeRanges sort all)
    (unseenSheets [] texts) {}
  simp only [fcp, all, solid_critical sort fcpCoverage ruleUsage, solid_deferred, solid_unused,
    solid_nil, nil_append]
    at hcritical hdeferred hunused
  have hdistinct : Distinct texts → (Splits fcp all texts css ↔ FirstPaintKept fcp all texts) := by
    intro hdistinct
    have hwhole : ∀ F : Bytes × Bytes → Bytes, (∀ s, solid s.2 = [] → F s = []) →
        (unseenSheets [] texts).flatMap F = texts.flatMap F :=
      fun F hF => flatMap_unseenSheets hF hdistinct fun _ _ h => absurd h not_mem_nil
    have hout : solid css.unusedCss = _ := hunused.trans (hwhole _ fun s hs => solid_pick_eq_nil hs)
    have hparts : FirstPaintKept fcp all texts ↔
        solid css.unusedCss = texts.flatMap (bytesIn fcp all .unused) := by
      rw [hout, flatMap_eq_iff (sublist_unused _ _)]
      exact forall_congr' fun sheet => imp_congr_right fun _ =>
        (filter_unused_eq_iff _ _ sheet).symm
    rw [hparts]
    exact ⟨Splits.unused, fun h => ⟨hcritical.trans (hwhole _ fun s hs => solid_pick_eq_nil hs),
      hdeferred.trans (hwhole _ fun s hs => solid_pick_eq_nil hs), h⟩⟩
  refine ⟨fun coverage => merged_mergeRanges sort (proper_parse coverage), hdistinct,
    fun hkept => ?_⟩
  refine ⟨fun hsplits => ?_, fun h => (hdistinct h).2 hkept⟩
  -- each byte of a sheet that is left out would be in one of the parts
  have hunseen : solid css.unusedCss =
      (unseenSheets [] texts).flatMap (bytesIn fcp all .unused) := by
    refine Eq.trans hunused (flatMap_congr fun sheet hsheet =>
      (filter_unused_eq_iff _ _ sheet).2 ?_)
    exact hkept sheet ((unseenSheets_sublist [] texts).subset hsheet)
  have hlength : ∀ sheets : List (Bytes × Bytes), (sheets.flatMap fun s => solid s.2).length =
      (sheets.flatMap (bytesIn fcp all .critical)).length +
        (sheets.flatMap (bytesIn fcp all .deferred)).length +
        (sheets.flatMap (bytesIn fcp all .unused)).length := by
    intro sheets
    induction sheets with
    | nil => rfl
    | cons s sheets ih =>
      have hs := length_parts fcp all s
      simp only [flatMap_cons, length_append]
      omega
  refine (@distinct_of_length_eq [] _ ?_).1
  rw [hlength, hlength, ← hsplits.critical, ← hsplits.deferred, ← hsplits.unused, hunseen]
  exact congrArg₂ (· + · + _) (congrArg List.length hcritical).symm
    (congrArg List.length hdeferred).symm

/-- A rule used at the first paint that the last report leaves out is critical and unused at
once. -/
theorem not_splits_first_paint :
    ¬ Splits (parseCoverageRanges (some [⟨some true, some (lit "1"), some 0, some 4⟩]))
      (parseCoverageRanges (some [])) [(lit "1", lit "a\x7b\x7d")]
        (reconstruct stableSort (some [⟨some true, some (lit "1"), some 0, some 4⟩]) (some [])
          [(lit "1", lit "a\x7b\x7d")]) :=
  fun h => absurd h.unused (by decide)

-- of two sheets with one text only the first is cut up, although the second one was used at the
-- first paint
example :
    let fcp := [⟨some true, some (lit "2"), some 0, some 3⟩]
    let all :=
      [⟨some true, some (lit "1"), some 0, some 3⟩, ⟨some true, some (lit "2"), some 0, some 3⟩]
    let texts := [(lit "1", lit "a\x7b\x7d"), (lit "2", lit "a\x7b\x7d")]
    ¬ Splits (parseCoverageRanges (some fcp)) (parseCoverageRanges (some all)) texts
        (reconstruct stableSort (some fcp) (some all) texts) :=
  fun h => absurd h.critical (by decide)

end PageSpeed.Coverage
