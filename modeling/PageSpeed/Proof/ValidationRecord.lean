import PageSpeed.Spec.ValidationRecord
import PageSpeed.Wire.Split

/-!
# What a validation record authorises

A binding is a list of words joined by blanks: those of the layer order, then those of the other
conditions (`joined_binding`). No word of one kind is of the other, so the words can be told apart
(`words_inj`), and since a binding has no line feed the comment behind a sheet can be found again
(`boundText_inj`). What remains is a sheet whose own text ends in such a comment: it passes for the
sheet without it.
-/

namespace PageSpeed.Validation

open Wire Situation List

variable {digest : Digest} {readers : LayerReaders} {s t : Situation} {order : CascadeLayerOrder}
  {name : Bytes}

/-! ## Joining words -/

theorem intercalate_append {c : UInt8} {ts us : List Bytes} (hts : ts ≠ []) (hus : us ≠ []) :
    [c].intercalate (ts ++ us) = [c].intercalate ts ++ c :: [c].intercalate us := by
  induction ts with
  | nil => exact absurd rfl hts
  | cons t ts ih =>
    rw [cons_append, intercalate_cons_of_ne_nil (by simp [hus])]
    rcases eq_or_ne ts [] with rfl | hne
    · simp
    · rw [ih hne, intercalate_cons_of_ne_nil hne]
      simp

theorem intercalate_cons_ne_nil {c : UInt8} {t : Bytes} (h : t ≠ []) (ts : List Bytes) :
    [c].intercalate (t :: ts) ≠ [] := by
  cases ts with
  | nil => simpa using h
  | cons u ts => simp

theorem intercalate_eq_nil {c : UInt8} {ts : List Bytes} (h : ∀ t ∈ ts, t ≠ []) :
    [c].intercalate ts = [] ↔ ts = [] := by
  cases ts with
  | nil => simp
  | cons t ts => simp [intercalate_cons_ne_nil (h t mem_cons_self)]

/-- The text is the words joined by blanks, and no word is empty. -/
structure Joined (text : Bytes) (ts : List Bytes) : Prop where
  eq : text = [ch ' '].intercalate ts
  ne_nil : ∀ t ∈ ts, t ≠ []

/-- A salt is one more word. -/
theorem Joined.salt {text : Bytes} {ts : List Bytes} (h : Joined text ts) (word : String)
    (hword : lit word ≠ [])
    (condition : Bool) : Joined (salt word condition text)
      (ts ++ if condition then [lit word] else []) := by
  cases condition with
  | false => simpa [Validation.salt] using h
  | true =>
    constructor
    · simp only [Validation.salt, if_true, h.eq, intercalate_eq_nil h.ne_nil]
      split_ifs with hts
      · simp [hts]
      · rw [intercalate_append hts (cons_ne_nil _ _), append_assoc]
        simp [lit]
    · exact forall_mem_append.2 ⟨h.ne_nil, by simpa using hword⟩

/-! ## Readable names -/

/-- The bytes of a layer name. -/
def isDottedNameChar (c : UInt8) : Bool := isNameChar c || c = ch '.'

theorem isNameChar_of_segment {seg : Bytes} (h : isReadableLayerSegment seg = true) :
    ∀ c ∈ seg, isNameChar c = true := by
  cases seg with
  | nil => simp
  | cons d rest =>
    simp only [isReadableLayerSegment, Bool.and_eq_true] at h
    exact all_eq_true.1 h.1.1.1

/-- A readable name has only name characters and dots. -/
theorem isDottedNameChar_of_readable (h : splitLayerName name ≠ []) : ∀ c ∈ name,
    isDottedNameChar c = true := by
  have hsegs : ∀ seg ∈ name.splitOn (ch '.'), isReadableLayerSegment seg = true := by
    unfold splitLayerName at h
    dsimp only at h
    split_ifs at h with hall
    · exact all_eq_true.1 hall
    · exact absurd rfl h
  intro c hc
  have hjoin : [ch '.'].intercalate (name.splitOn (ch '.')) = name := intercalate_splitOn _
  rw [← hjoin] at hc
  generalize name.splitOn (ch '.') = segs at hsegs hc
  by_contra hnot
  simp only [isDottedNameChar, Bool.or_eq_true, decide_eq_true_eq, not_or] at hnot
  exact not_mem_intercalate hnot.2
    (fun seg hseg hmem => hnot.1 (isNameChar_of_segment (hsegs seg hseg) c hmem)) hc

theorem splitLayerName_ne_nil_iff :
    splitLayerName name ≠ [] ↔ ∀ seg ∈ name.splitOn (ch '.'),
      isReadableLayerSegment seg = true := by
  unfold splitLayerName
  dsimp only
  split_ifs with hall
  · exact ⟨fun _ => all_eq_true.1 hall, fun _ => splitOn_ne_nil _ _⟩
  · exact ⟨fun h => absurd rfl h, fun h => absurd (all_eq_true.2 h) hall⟩

/-- A readable part of a readable layer is readable. -/
theorem readable_qualify {parent seg : Bytes} (hparent : parent = [] ∨ splitLayerName parent ≠ [])
    (hseg : isReadableLayerSegment seg = true) : splitLayerName (qualify parent seg) ≠ [] := by
  have hdot : ch '.' ∉ seg := by
    intro hmem
    exact absurd (isNameChar_of_segment hseg _ hmem) (by decide)
  have hone : seg.splitOn (ch '.') = [seg] := splitOn_eq_singleton hdot
  rw [splitLayerName_ne_nil_iff]
  unfold qualify
  split_ifs with hempty
  · simpa [hone] using hseg
  · have hsegs := splitLayerName_ne_nil_iff.1 (hparent.resolve_left hempty)
    rw [splitOn_append_cons_self, hone]
    exact forall_mem_append.2 ⟨hsegs, forall_mem_singleton.2 hseg⟩

/-- **The walk registers readable names only.** -/
theorem readable_registerSegments {collectOnly conditional : Bool} {w w' : Walker} {parent : Bytes}
    {segs : List Bytes}
    (h : w.registerSegments collectOnly conditional parent segs = some w')
      (hw : ∀ name ∈ w.names, splitLayerName name ≠ [])
    (hparent : parent = [] ∨ splitLayerName parent ≠ [])
      (hsegs : ∀ seg ∈ segs, isReadableLayerSegment seg = true) :
    ∀ name ∈ w'.names, splitLayerName name ≠ [] := by
  induction segs generalizing w parent with
  | nil =>
    cases h
    exact hw
  | cons seg segs ih =>
    obtain ⟨hseg, hrest⟩ := forall_mem_cons.1 hsegs
    have hfull := readable_qualify hparent hseg
    rw [Walker.registerSegments, Walker.register] at h
    split_ifs at h with hknown hrefused
    · exact ih h hw (.inr hfull) hrest
    · exact ih h (forall_mem_append.2 ⟨hw, forall_mem_singleton.2 hfull⟩) (.inr hfull) hrest

/-- Only readable names are registered. -/
theorem readable_registerPath {collectOnly : Bool} {w w' : Walker} {ctx : Context}
    (h : w.registerPath collectOnly name ctx = some w')
      (hw : ∀ name ∈ w.names, splitLayerName name ≠ [])
    (hparent : ctx.parent = [] ∨ splitLayerName ctx.parent ≠ []) : ∀ name ∈ w'.names,
      splitLayerName name ≠ [] := by
  unfold Walker.registerPath at h
  dsimp only at h
  split_ifs at h with hunreadable hanonymous
  · cases h
    exact hw
  · refine readable_registerSegments h hw hparent ?_
    have hsegs := splitLayerName_ne_nil_iff.1 hunreadable
    unfold splitLayerName
    rwa [if_pos (all_eq_true.2 hsegs)]

/-- A path inside of a layer: it is qualified by the parent, and the names so far stay. -/
theorem readable_registerPath_nested :
    ∃ w, Walker.registerPath false { names := [lit "base"] } (lit "a.b")
      { parent := lit "base" } = some w ∧
      w.names = [lit "base", lit "base.a", lit "base.a.b"] ∧ ∀ name ∈ w.names,
        splitLayerName name ≠ [] := by
  have hnames : (Walker.registerPath false { names := [lit "base"] } (lit "a.b")
    { parent := lit "base" }).map
      (·.names) = some [lit "base", lit "base.a", lit "base.a.b"] := by
    decide
  obtain ⟨w, hw, hnames⟩ := Option.map_eq_some_iff.1 hnames
  exact ⟨w, hw, hnames, readable_registerPath hw (by decide) (.inr (by decide))⟩

/-! ## The words of a binding -/

/-- A word if the condition holds. -/
def wordIf (text : String) (present : Bool) : List Bytes := if present then [lit text] else []

variable (order : CascadeLayerOrder)

/-- The statement cut at its blank. -/
def statementWords : List Bytes :=
  if order.names = [] then [[]] else [lit "@layer", [ch ','].intercalate order.names ++ lit ";"]

/-- The words of the binding of a layer order. -/
def layerWords (readers : LayerReaders) (s : Situation) : List Bytes :=
  if readers.mayUseCascadeLayer s.combinedCss = false then []
  else
    let a2 := readers.mayCarryImportantInAnonymousLayer s.combinedCss
    let u2 :=
      readers.hasAnonymousLayer s.combinedCss && !readers.blockGoesFirst s.combinedCss s.layerOrder
    if s.layerOrder.proven = false then lit "unproven" :: (wordIf "a2" a2 ++ wordIf "u2" u2)
    else
      lit "proven" :: (wordIf "r2" (readers.retentionMayNarrow s.combinedCss s.layerOrder) ++
        (wordIf "a2" a2 ++ (wordIf "u2" u2 ++ statementWords s.layerOrder)))

theorem statement_eq : order.statement = [ch ' '].intercalate (statementWords order) := by
  unfold CascadeLayerOrder.statement statementWords
  split_ifs with hnames
  · simp
  · simp [lit]

/-- The binding of the layers is its words joined. -/
theorem layerBinding_eq (readers : LayerReaders) (s : Situation) :
    s.layerBinding readers = [ch ' '].intercalate (layerWords readers s) := by
  have hstatement : statementWords s.layerOrder ≠ [] := by
    unfold statementWords
    split_ifs <;> simp
  unfold layerBinding CascadeLayerOrder.validationBinding layerWords
  dsimp only
  split_ifs with hlayers hproven
  · rfl
  · generalize readers.mayCarryImportantInAnonymousLayer s.combinedCss = a2
    generalize (readers.hasAnonymousLayer s.combinedCss &&
      !readers.blockGoesFirst s.combinedCss s.layerOrder) = u2
    revert a2 u2
    decide
  · rw [statement_eq]
    generalize statementWords s.layerOrder = rest at hstatement
    obtain ⟨w, ws, rfl⟩ := exists_cons_of_ne_nil hstatement
    generalize readers.mayCarryImportantInAnonymousLayer s.combinedCss = a2
    generalize (readers.hasAnonymousLayer s.combinedCss &&
      !readers.blockGoesFirst s.combinedCss s.layerOrder) = u2
    generalize readers.retentionMayNarrow s.combinedCss s.layerOrder = r2
    cases r2 <;> cases a2 <;> cases u2 <;> simp [marker, wordIf, lit]

/-- The words that are not about layers. -/
def saltList : List Bytes :=
  [lit "noscript-render", lit "css-escape", lit "tablet-mobile", lit "touch", lit "ua",
    lit "anon-layers-dropped"]

theorem mem_saltList_of_mem_words : ∀ w ∈ s.words, w ∈ saltList := by
  unfold words
  generalize s.noscriptAffectsRender = noscript,
    combinedCssHasStructuralEscape s.combinedCss = escape,
    s.deviceClass = device, s.anonymousLayersDropped = dropped
  revert noscript escape dropped
  cases device <;> decide

/-- The words say what they are about. -/
theorem saltWords_inj {noscript noscript' escape dropped dropped' : Bool}
    {device device' : DeviceClass}
    (h : saltWords noscript escape device dropped = saltWords noscript' escape device' dropped') :
    noscript = noscript' ∧ device = device' ∧ dropped = dropped' := by
  revert h
  revert noscript noscript' escape dropped dropped'
  cases device <;> cases device' <;> decide

/-- A word of a layer order is on one line, has no blank, and is none of the others. -/
def IsLayerWord (w : Bytes) : Prop := ch ' ' ∉ w ∧ ch '\n' ∉ w ∧ w ∉ saltList

instance (w : Bytes) : Decidable (IsLayerWord w) := inferInstanceAs (Decidable (_ ∧ _))

theorem isLayerWord_names : IsLayerWord ([ch ','].intercalate order.names ++ lit ";") := by
  have hnames : ∀ {c : UInt8}, c ≠ ch ',' → isDottedNameChar c = false →
      c ∉ [ch ','].intercalate order.names := by
    intro c hcomma hc
    refine not_mem_intercalate hcomma fun name hname hmem => ?_
    rw [isDottedNameChar_of_readable (order.readable name hname) c hmem] at hc
    cases hc
  refine ⟨?_, ?_, ?_⟩
  · rw [mem_append, not_or]
    exact ⟨hnames (by decide) (by decide), by decide⟩
  · rw [mem_append, not_or]
    exact ⟨hnames (by decide) (by decide), by decide⟩
  · -- no other word has a semicolon
    intro hsalt
    have hnone : ∀ w ∈ saltList, ch ';' ∉ w := by decide
    refine hnone _ hsalt (mem_append_right _ ?_)
    decide

theorem isLayerWord_wordIf {text : String} (h : IsLayerWord (lit text)) (present : Bool) :
    ∀ w ∈ wordIf text present, IsLayerWord w := by
  cases present with
  | false => simp [wordIf]
  | true => simpa [wordIf] using h

/-- Each of them is a layer word. -/
theorem isLayerWord_of_mem : ∀ w ∈ layerWords readers s, IsLayerWord w := by
  have hstatement : ∀ w ∈ statementWords s.layerOrder, IsLayerWord w := by
    unfold statementWords
    split_ifs with hnames
    · decide
    · refine forall_mem_cons.2 ⟨by decide, ?_⟩
      simpa using isLayerWord_names s.layerOrder
  unfold layerWords
  dsimp only
  split_ifs with hlayers hproven
  · simp
  · refine forall_mem_cons.2 ⟨by decide, forall_mem_append.2 ⟨?_, ?_⟩⟩
    · exact isLayerWord_wordIf (by decide) _
    · exact isLayerWord_wordIf (by decide) _
  · refine forall_mem_cons.2 ⟨by decide, forall_mem_append.2 ⟨?_, forall_mem_append.2 ⟨?_,
      forall_mem_append.2 ⟨?_, hstatement⟩⟩⟩⟩
    · exact isLayerWord_wordIf (by decide) _
    · exact isLayerWord_wordIf (by decide) _
    · exact isLayerWord_wordIf (by decide) _

theorem layerBinding_eq_nil_iff : s.layerBinding readers = [] ↔ layerWords readers s = [] := by
  rw [layerBinding_eq]
  unfold layerWords
  dsimp only
  split_ifs with hlayers hproven
  · simp
  · simp [intercalate_cons_ne_nil (show lit "unproven" ≠ [] by decide)]
  · simp [intercalate_cons_ne_nil (show lit "proven" ≠ [] by decide)]

/-- The binding of the layers as one part, if there is one. -/
def layerPart (readers : LayerReaders) (s : Situation) : List Bytes :=
  if s.layerBinding readers = [] then [] else [s.layerBinding readers]

theorem joined_layerPart : Joined (s.layerBinding readers) (layerPart readers s) := by
  unfold layerPart
  split_ifs with hnil
  · exact ⟨by simp [hnil], by simp⟩
  · exact ⟨by simp, by simpa using hnil⟩

/-- **A binding is its parts joined by blanks.** -/
theorem joined_binding : Joined (s.binding readers) (layerPart readers s ++ s.words) := by
  have hlayer : Joined (s.layerBinding readers) (layerPart readers s) := joined_layerPart
  have hnoscript := hlayer.salt "noscript-render" (by decide) s.noscriptAffectsRender
  have hescape :=
    hnoscript.salt "css-escape" (by decide) (combinedCssHasStructuralEscape s.combinedCss)
  have htablet := hescape.salt "tablet-mobile" (by decide) (s.viewport = .kTablet)
  have htouch := htablet.salt "touch" (by decide) (s.viewport ≠ .kDesktop)
  have hua := htouch.salt "ua" (by decide) (s.viewport ≠ .kDesktop)
  have hdropped := hua.salt "anon-layers-dropped" (by decide) s.anonymousLayersDropped
  have hwords : s.words = wordIf "noscript-render" s.noscriptAffectsRender ++
      (wordIf "css-escape" (combinedCssHasStructuralEscape s.combinedCss) ++
        (wordIf "tablet-mobile" (s.viewport = .kTablet) ++
        (wordIf "touch" (s.viewport ≠ .kDesktop) ++ (wordIf "ua" (s.viewport ≠ .kDesktop) ++
          wordIf "anon-layers-dropped" s.anonymousLayersDropped)))) := by
    unfold words saltWords deviceClass
    cases s.viewport <;> rfl
  rw [hwords]
  simp only [append_assoc] at hdropped
  exact hdropped

/-- When a binding is empty. -/
theorem binding_eq_nil_iff : s.binding readers = [] ↔ s.Plain readers := by
  rw [joined_binding.eq, intercalate_eq_nil joined_binding.ne_nil, append_eq_nil_iff,
    Plain, layerPart]
  simp

theorem commentLine_eq : s.commentLine readers = lit "\n/*pagespeed-layer-order:" ++
    s.binding readers ++ lit "*/" := by
  rw [joined_binding.eq]
  rfl

/-- The words of a binding, taken apart. -/
theorem binding_eq_words : s.binding readers =
    [ch ' '].intercalate (layerWords readers s ++ s.words) := by
  rw [joined_binding.eq, layerPart]
  split_ifs with hnil
  · rw [layerBinding_eq_nil_iff.1 hnil]
  · have hlayers : layerWords readers s ≠ [] := fun h => hnil (layerBinding_eq_nil_iff.2 h)
    by_cases hwords : s.words = []
    · rw [hwords, append_nil, append_nil, intercalate_singleton, layerBinding_eq]
    · rw [intercalate_append (cons_ne_nil _ _) hwords, intercalate_append hlayers hwords,
        intercalate_singleton, layerBinding_eq]

/-- No word has a blank in it. -/
theorem blank_not_mem_word : ∀ w ∈ layerWords readers s ++ s.words, ch ' ' ∉ w := by
  have hsalts : ∀ w ∈ saltList, ch ' ' ∉ w := by decide
  exact forall_mem_append.2
    ⟨fun w hw => (isLayerWord_of_mem w hw).1, fun w hw => hsalts w (mem_saltList_of_mem_words w hw)⟩

theorem feed_not_mem_binding : ch '\n' ∉ s.binding readers := by
  have hsalts : ∀ w ∈ saltList, ch '\n' ∉ w := by decide
  rw [binding_eq_words]
  exact not_mem_intercalate (by decide) (forall_mem_append.2
    ⟨fun w hw => (isLayerWord_of_mem w hw).2.1, fun w hw =>
      hsalts w (mem_saltList_of_mem_words w hw)⟩)

/-- The words of the layers are told from the others. -/
theorem words_inj (h : layerWords readers s ++ s.words = layerWords readers t ++ t.words) :
    layerWords readers s = layerWords readers t ∧ s.words = t.words := by
  have hfilter : ∀ u : Situation, (layerWords readers u ++ u.words).filter (fun w => w ∈ saltList) =
      u.words := by
    intro u
    have hlayers : (layerWords readers u).filter (fun w => w ∈ saltList) = [] :=
      filter_eq_nil_iff.2 fun w hw => by simpa using (isLayerWord_of_mem w hw).2.2
    have hwords : u.words.filter (fun w => w ∈ saltList) = u.words :=
      filter_eq_self.2 fun w hw => decide_eq_true (mem_saltList_of_mem_words w hw)
    rw [filter_append, hlayers, hwords, nil_append]
  have hwords : s.words = t.words := by rw [← hfilter s, ← hfilter t, h]
  rw [hwords] at h
  exact ⟨append_cancel_right h, hwords⟩

/-- A binding determines its two parts. -/
theorem binding_inj (hs : s.binding readers ≠ []) (ht : t.binding readers ≠ [])
    (h : s.binding readers = t.binding readers) :
    s.layerBinding readers = t.layerBinding readers ∧ s.words = t.words := by
  have hlist : ∀ {u : Situation}, u.binding readers ≠ [] →
      layerWords readers u ++ u.words ≠ [] := by
    intro u hu hnil
    rw [binding_eq_words, hnil] at hu
    exact hu rfl
  have hsplit := congrArg (List.splitOn (ch ' ')) h
  rw [binding_eq_words, binding_eq_words, splitOn_intercalate _ blank_not_mem_word (hlist hs),
    splitOn_intercalate _ blank_not_mem_word (hlist ht)] at hsplit
  obtain ⟨hlayers, hwords⟩ := words_inj hsplit
  exact ⟨by rw [layerBinding_eq, layerBinding_eq, hlayers], hwords⟩

/-! ## Hashes -/

/-- What is hashed for a sheet and a binding. -/
def boundText (css binding : Bytes) : Bytes :=
  if binding = [] then css else css ++ lit "\n/*pagespeed-layer-order:" ++ binding ++ lit "*/"

theorem boundText_ne_nil {css : Bytes} (h : css ≠ []) (binding : Bytes) :
    boundText css binding ≠ [] := by
  unfold boundText
  split_ifs
  · exact h
  · simp [h]

/-- Hexadecimal is injective. -/
theorem hexText_inj {a b : Bytes} (h : hexText a = hexText b) : a = b := by
  have hbyte : ∀ c : UInt8, UInt8.ofNat
    ((hexDigitValue (Http.hexDigit (c.toNat / 16))).getD 0 * 16 +
      (hexDigitValue (Http.hexDigit (c.toNat % 16))).getD 0) = c := by decide +kernel
  induction a generalizing b with
  | nil =>
    cases b with
    | nil => rfl
    | cons d b => simp [hexText] at h
  | cons c a ih =>
    cases b with
    | nil => simp [hexText] at h
    | cons d b =>
      simp only [hexText, flatMap_cons, cons_append, nil_append, cons.injEq] at h
      obtain ⟨hhigh, hlow, hrest⟩ := h
      have hcd : c = d := by rw [← hbyte c, ← hbyte d, hhigh, hlow]
      rw [hcd, ih hrest]

theorem hexText_ne_nil {a : Bytes} (h : a ≠ []) : hexText a ≠ [] := by
  obtain ⟨c, a, rfl⟩ := exists_cons_of_ne_nil h
  simp [hexText]

/-- The hash is that of the sheet with its comment line. -/
theorem combinedCssValidationHash_eq {css : Bytes} (h : css ≠ []) (binding : Bytes) :
    combinedCssValidationHash digest css binding =
      hexText (digest.hash (boundText css binding)) := by
  have htext := boundText_ne_nil h binding
  unfold combinedCssValidationHash sheetValidationHash
  unfold boundText at htext ⊢
  rw [if_neg h]
  split_ifs with hbinding hempty
  · rfl
  · rw [if_neg hbinding] at htext
    exact absurd hempty htext
  · rfl

/-- When a record is accepted. -/
theorem accepts_iff (vp : ViewportProfile) : t.accepts digest readers vp = true ↔
    vp.criticalCssValidated = true ∧ vp.validatedCombinedCssHash ≠ [] ∧
      vp.validatedCombinedCssHash =
        combinedCssValidationHash digest t.combinedCss (t.binding readers) := by
  simp only [accepts, asyncCssValidatedForServedSheet, Bool.and_eq_true,
    decide_eq_true_iff, and_assoc]

/-- A record is accepted exactly where the same text is hashed, and never for an empty sheet. -/
theorem accepts_record_iff : t.accepts digest readers (s.record digest readers) = true ↔
    s.combinedCss ≠ [] ∧ t.combinedCss ≠ [] ∧
      boundText s.combinedCss (s.binding readers) =
        boundText t.combinedCss (t.binding readers) := by
  have hempty : ∀ binding, combinedCssValidationHash digest [] binding = [] := fun _ => rfl
  rw [accepts_iff, record]
  dsimp only
  by_cases hs : s.combinedCss = []
  · simp [hs, hempty]
  · by_cases ht : t.combinedCss = []
    · rw [ht, hempty]
      exact ⟨fun h => absurd h.2.2 h.2.1, fun h => absurd rfl h.2.1⟩
    · rw [combinedCssValidationHash_eq hs, combinedCssValidationHash_eq ht]
      constructor
      · exact fun h => ⟨hs, ht, digest.injective (hexText_inj h.2.2)⟩
      · rintro ⟨-, -, h⟩
        rw [h]
        exact ⟨rfl, hexText_ne_nil (digest.ne_nil _), rfl⟩

/-- **The comment behind a sheet is found again**: it starts at the last line feed. -/
theorem boundText_inj (hs : s.binding readers ≠ []) (ht : t.binding readers ≠ [])
    (h : boundText s.combinedCss (s.binding readers) =
      boundText t.combinedCss (t.binding readers)) :
    s.combinedCss = t.combinedCss ∧ s.binding readers = t.binding readers := by
  have hline : ∀ {u : Situation}, u.binding readers ≠ [] →
    boundText u.combinedCss (u.binding readers) =
      u.combinedCss ++ ch '\n' ::
        (lit "/*pagespeed-layer-order:" ++ (u.binding readers ++ lit "*/")) := by
    intro u hu
    rw [boundText, if_neg hu, append_assoc, append_assoc]
    rfl
  have hfeed : ∀ u : Situation, ch '\n' ∉ lit "/*pagespeed-layer-order:" ++
      (u.binding readers ++ lit "*/") := by
    intro u
    simp only [mem_append, not_or]
    exact ⟨by decide, feed_not_mem_binding, by decide⟩
  rw [hline hs, hline ht] at h
  obtain ⟨hcss, htail⟩ := last_inj (hfeed s) (hfeed t) h
  exact ⟨hcss, append_cancel_right (append_cancel_left htail)⟩

/-- Equal words are equal conditions. -/
theorem agrees_of_words (hcss : s.combinedCss = t.combinedCss) (hne : s.combinedCss ≠ [])
    (hlayers : s.layerBinding readers = t.layerBinding readers) (hwords : s.words = t.words) :
    s.Agrees readers t := by
  unfold words at hwords
  rw [hcss] at hwords
  obtain ⟨hnoscript, hdevice, hdropped⟩ := saltWords_inj hwords
  exact ⟨hcss, hne, hlayers, hnoscript, hdevice, hdropped⟩

/-- A sheet that ends like a comment line is hashed as another with one. -/
theorem Situation.Mimics.boundText_eq (h : s.Mimics readers t) :
    boundText s.combinedCss (s.binding readers) = boundText t.combinedCss (t.binding readers) := by
  obtain ⟨hs, ht, -, hcss⟩ := h
  rw [boundText, if_pos (binding_eq_nil_iff.2 hs), boundText, if_neg (mt binding_eq_nil_iff.1 ht),
    hcss, commentLine_eq, append_assoc, append_assoc, append_assoc]

theorem Situation.Mimics.css_ne (h : s.Mimics readers t) : s.combinedCss ≠ t.combinedCss := by
  intro heq
  have hline := h.2.2.2
  rw [heq, self_eq_append_right, commentLine_eq] at hline
  simp [lit] at hline

/-- **A record made in one situation and accepted in another is for the same sheet and the same
conditions**, unless the sheet of one of the two is plain and ends in the comment line that stands
for the conditions of the other. -/
theorem record_authorises_iff (digest : Digest) (readers : LayerReaders) (s t : Situation) :
    (t.accepts digest readers (s.record digest readers) = true → s.Agrees readers t) ↔
      ¬ s.Mimics readers t ∧ ¬ t.Mimics readers s := by
  rw [accepts_record_iff]
  constructor
  · intro h
    refine ⟨fun hm => ?_, fun hm => ?_⟩
    · have hne : s.combinedCss ≠ [] := by
        rw [hm.2.2.2]
        simp [hm.2.2.1]
      exact hm.css_ne (h ⟨hne, hm.2.2.1, hm.boundText_eq⟩).css
    · have hne : t.combinedCss ≠ [] := by
        rw [hm.2.2.2]
        simp [hm.2.2.1]
      exact hm.css_ne (h ⟨hm.2.2.1, hne, hm.boundText_eq.symm⟩).css.symm
  · -- without a binding on either side the texts are the styles, with two the binding splits off
    rintro ⟨hst, hts⟩ ⟨hs, ht, htext⟩
    by_cases hbs : s.binding readers = [] <;> by_cases hbt : t.binding readers = []
    · rw [boundText, if_pos hbs, boundText, if_pos hbt] at htext
      obtain ⟨hls, hws⟩ := binding_eq_nil_iff.1 hbs
      obtain ⟨hlt, hwt⟩ := binding_eq_nil_iff.1 hbt
      exact agrees_of_words htext hs (hls.trans hlt.symm) (hws.trans hwt.symm)
    · -- one binding only: then the styles of the other spell it out
      refine absurd ⟨binding_eq_nil_iff.1 hbs, mt binding_eq_nil_iff.2 hbt, ht, ?_⟩ hst
      rw [boundText, if_pos hbs, boundText, if_neg hbt] at htext
      rw [htext, commentLine_eq, append_assoc, append_assoc, append_assoc]
    · refine absurd ⟨binding_eq_nil_iff.1 hbt, mt binding_eq_nil_iff.2 hbs, hs, ?_⟩ hts
      rw [boundText, if_neg hbs, boundText, if_pos hbt] at htext
      rw [← htext, commentLine_eq, append_assoc, append_assoc, append_assoc]
    · obtain ⟨hcss, hbinding⟩ := boundText_inj hbs hbt htext
      obtain ⟨hlayers, hwords⟩ := binding_inj hbs hbt hbinding
      exact agrees_of_words hcss hs hlayers hwords

/-- A digest that keeps the text. -/
def plainDigest : Digest where
  hash text := 0 :: text
  injective _ _ h := (List.cons.inj h).2
  ne_nil _ := List.cons_ne_nil _ _

/-- A sheet without layers. -/
def noLayers : LayerReaders :=
  ⟨fun _ => false, fun _ => false, fun _ => false, fun _ _ => true, fun _ _ => true⟩

/-- A page whose `<noscript>` changes the render. -/
def recorded : Situation := ⟨lit "a\x7b\x7d", ⟨true, [], by simp⟩, true, .kDesktop, false⟩

/-- A page without that whose sheet ends in the comment. -/
def served : Situation :=
  ⟨lit "a\x7b\x7d\n/*pagespeed-layer-order:noscript-render*/", ⟨true, [], by simp⟩, false,
    .kDesktop, false⟩

/-- The record of the one page is accepted for the other sheet. -/
theorem not_record_authorises_comment :
    ¬ (served.accepts plainDigest noLayers (recorded.record plainDigest noLayers) = true →
      recorded.Agrees noLayers served) := by
  intro h
  have haccepted : served.accepts plainDigest noLayers (recorded.record plainDigest noLayers) =
      true := by decide +kernel
  exact absurd (h haccepted).css (by decide)

end PageSpeed.Validation
