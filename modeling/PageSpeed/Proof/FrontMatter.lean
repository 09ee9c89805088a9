import PageSpeed.Proof.MarkdownLines
import PageSpeed.Yaml.Reader

/-!
# The front matter as YAML

* `scalarText_yamlScalar`: a value is read back if it is quoted, or if no tab stands at its start,
  behind a colon or in front of a hash.
* `frontMatter_reads_iff`: so the block is read as its keys and values exactly when this holds of
  each value.
-/

namespace PageSpeed.Markdown

open Wire Yaml

/-- A value: printable characters, tabs and line ends, and no blank at its end. -/
structure Value where
  text : Bytes
  printable : ∀ c ∈ text, ch ' ' ≤ c ∧ c ≤ ch '~' ∨ c = ch '\t' ∨ c = ch '\r' ∨ c = ch '\n'
  untrailed : (Filter.foldLines text).getLast?.all (!isWhite ·)

/-- The value comes in quotes. -/
def quotes (flat : Bytes) : Bool :=
  flat = [] ∨ yamlHazard none flat ∨ flat.head?.any isYamlIndicator

/-- A tab behind `prev` that the hazards do not know: at the start, behind a colon or in front of a
hash. -/
def tabSlips (prev : Option UInt8) : Bytes → Bool
  | [] => false
  | c :: rest =>
    (c = ch '\t' && prev = none) || (c = ch ':' && rest.head? = some (ch '\t')) ||
      (c = ch '#' && prev = some (ch '\t')) || tabSlips (some c) rest

/-- A text without hazards is read as itself unless a tab slips in. -/
theorem readPlain_eq_self_iff {s : Bytes} : ∀ {prev : UInt8}, yamlHazard (some prev) s = false →
    (readPlain prev s = some s ↔ tabSlips (some prev) s = false) := by
  induction s with
  | nil => simp [readPlain, tabSlips]
  | cons c rest ih =>
    intro prev h
    rw [yamlHazard, Bool.or_eq_false_iff] at h
    rw [readPlain, tabSlips, Bool.or_eq_false_iff, ← ih h.2]
    have hcolon : c = ch ':' → rest.head?.all isWhite → rest.head? = some (ch '\t') := by
      cases rest <;> simp_all [isWhite]
    have htab : isWhite (ch '\t') := by decide
    split_ifs with hhash hvalue
    · refine iff_of_false (by simp) ?_
      simp_all [isWhite]
    · refine iff_of_false (by simp) ?_
      simp [hvalue.1, hcolon hvalue.1 hvalue.2]
    · have hsafe : (c = ch ':' → rest.head? ≠ some (ch '\t')) ∧ (c = ch '#' → prev ≠ ch '\t') := by
        refine ⟨fun hc hhead => hvalue ⟨hc, by simp [hhead, htab]⟩, fun hc hprev =>
          hhash ⟨hc, by rw [hprev, htab]⟩⟩
      simp_all

theorem quote_not_mem {s : Bytes} : ∀ {prev : Option UInt8}, yamlHazard prev s = false →
    ch '"' ∉ s := by
  induction s with
  | nil => simp
  | cons c rest ih =>
    intro prev h
    rw [yamlHazard, Bool.or_eq_false_iff] at h
    rw [List.mem_cons, not_or]
    refine ⟨fun hc => ?_, ih h.2⟩
    simp [← hc] at h

/-- The bytes of a value, quoted or plain. -/
theorem bytesOf_yamlScalar (v : Bytes) : bytesOf (yamlScalar v) =
    if quotes (Filter.foldLines v) then ch '"' :: ((Filter.foldLines v).flatMap escape ++ [ch '"'])
    else Filter.foldLines v := by
  have hescape : ∀ c, bytesOf (if c = ch '"' ∨ c = ch '\\' then [⟨ch '\\', .inline⟩, ⟨c, .page⟩]
      else [⟨c, .page⟩]) = escape c := by
    intro c
    unfold escape
    split_ifs <;> rfl
  have hmark : ∀ (origin : Origin) (s : Bytes), bytesOf (mark origin s) = s := fun origin s => by
    simp [bytesOf, mark, Function.comp_def]
  unfold yamlScalar quotes
  simp only [decide_eq_true_eq]
  split_ifs
  · unfold bytesOf at hescape hmark ⊢
    rw [List.map_append, List.map_append, hmark, List.map_flatMap]
    simp only [hescape]
    rfl
  · exact hmark _ _

/-- **A value is read back**, if it is in quotes or has no tab that slips through. -/
theorem scalarText_yamlScalar (v : Value) :
    scalarText (bytesOf (yamlScalar v.text)) = some (Filter.foldLines v.text) ↔
    quotes (Filter.foldLines v.text) ∨ tabSlips none (Filter.foldLines v.text) = false := by
  have hlast := v.untrailed
  rw [bytesOf_yamlScalar]
  generalize Filter.foldLines v.text = flat at hlast
  split_ifs with hquotes
  · refine iff_of_true ?_ (.inl hquotes)
    have hnone : ch '"' ≠ ch ' ' ∧ ch '"' ≠ ch '\t' := by decide
    simp [scalarText, isWhite, hnone, readQuoted_escape]
  rw [or_iff_right hquotes]
  simp only [quotes, decide_eq_true_eq, not_or] at hquotes
  obtain ⟨hne, hhazard, hfirst⟩ := hquotes
  obtain ⟨c, rest, rfl⟩ := List.exists_cons_of_ne_nil hne
  have hindicator : ∀ c : UInt8, isYamlIndicator c = false →
      (isWhite c = decide (c = ch '\t')) ∧ c ≠ ch '#' ∧ startsPlain c [] := by
    decide +kernel
  obtain ⟨hblank, hhash, hplain⟩ := hindicator c (by simpa using hfirst)
  have hstarts : startsPlain c rest := decide_eq_true (.inl (by simpa [startsPlain] using hplain))
  rw [Bool.not_eq_true] at hhazard
  have hhazard' : yamlHazard (some (ch ' ')) (c :: rest) = false := by
    simpa [yamlHazard, hhash] using hhazard
  rw [scalarText_eq_self_iff (quote_not_mem hhazard) hlast, readPlain_eq_self_iff hhazard', hblank,
    tabSlips, tabSlips]
  simp [hstarts, hhash, and_assoc]

/-- The keys of the block, with the values that are not empty. -/
def entries (title description date canonical : Value) : List (Bytes × Value) :=
  [(lit "title", title), (lit "description", description), (lit "date", date),
    (lit "canonical", canonical)].filter
    (·.2.text ≠ [])

/-- The value of an entry as it is written. -/
def written (p : Bytes × Value) : Bytes := bytesOf (yamlScalar p.2.text)

/-- A line of the front matter as the document's. -/
theorem bytesOf_frontMatterLine {name : String} (key : Bytes) (h : lit name = key ++ lit ": ")
    (v : Value) :
    bytesOf (frontMatterLine name v.text) = 
      (([(key, v)].filter (·.2.text ≠ [])).map (line Prod.fst written)).flatMap
        (· ++ [ch '\n']) := by
  by_cases hempty : v.text = []
  · simp [frontMatterLine, hempty, bytesOf]
  · simp [frontMatterLine, hempty, bytesOf, line, written, mark, h, Function.comp_def]
    rfl

/-- **The front matter round-trips as YAML** exactly if each of its values is in quotes or has no
tab that slips through: at its start, behind a colon or in front of a hash. -/
theorem frontMatter_reads_iff (x : Config) (title description date canonical : Value) :
    readDocument (bytesOf (frontMatter { x with
        fmTitle := title.text, fmDescription := description.text,
        fmCanonical := canonical.text } date.text)) =
      some ((entries title description date canonical).map fun p =>
        (p.1, Filter.foldLines p.2.text)) ↔ ∀ p ∈ entries title description date canonical,
      quotes (Filter.foldLines p.2.text) ∨ tabSlips none (Filter.foldLines p.2.text) = false := by
  -- the block is a document of the entries that are not empty
  have hblock : bytesOf (frontMatter { x with
        fmTitle := title.text, fmDescription := description.text,
        fmCanonical := canonical.text } date.text) =
      document Prod.fst written (entries title description date canonical) := by
    have happend : ∀ s t : Text, bytesOf (s ++ t) = bytesOf s ++ bytesOf t :=
      fun s t => List.map_append
    have hentries : entries title description date canonical =
      [(lit "title", title)].filter (·.2.text ≠ []) ++
        ([(lit "description", description)].filter (·.2.text ≠ []) ++
          ([(lit "date", date)].filter (·.2.text ≠ []) ++
          [(lit "canonical", canonical)].filter (·.2.text ≠ []))) := by
      simp only [← List.filter_append]
      rfl
    rw [frontMatter, happend, happend, happend, happend, happend,
      bytesOf_frontMatterLine (lit "title") rfl,
      bytesOf_frontMatterLine (lit "description") rfl, bytesOf_frontMatterLine (lit "date") rfl,
      bytesOf_frontMatterLine (lit "canonical") rfl, hentries, document]
    simp only [List.map_append, List.flatMap_append, List.flatMap_cons, List.append_assoc]
    rfl
  rw [hblock, readDocument_eq_some_iff]
  · exact forall₂_congr fun p _ => scalarText_yamlScalar p.2
  · -- neither the names nor the scalars end a line
    intro p hp
    have hkeys : ∀ key ∈ [lit "title", lit "description", lit "date", lit "canonical"],
        ch '\n' ∉ key ∧ ch ':' ∉ key := by
      decide
    have hkey := hkeys p.1 (List.mem_map_of_mem (f := Prod.fst) (List.mem_of_mem_filter hp))
    refine ⟨hkey.1, hkey.2, fun hmem => ?_⟩
    obtain ⟨m, hm, hbyte⟩ := List.mem_map.1 hmem
    exact of_decide_eq_false (yamlScalar_line _ m hm) (.inl hbyte)

/-- A hash behind a tab starts a comment: the title is cut. -/
theorem frontMatter_cuts_title :
    readDocument (bytesOf (frontMatter { fmTitle := lit "a\t#b" } [])) =
    some [(lit "title", lit "a")] ∧ Filter.foldLines (lit "a\t#b") ≠ lit "a" := by
  decide +kernel

end PageSpeed.Markdown
