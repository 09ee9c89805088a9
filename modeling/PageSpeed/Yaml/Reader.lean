import PageSpeed.Wire.Find

/-!
# YAML mappings with a scalar on each line

What YAML 1.2 reads in a document that is a block mapping at the margin, each key with a plain or
double-quoted scalar on its own line. `none` stands for an error, and for all that is not such a
scalar (escapes other than of `"` and `\`, nested collections, null).

* `readQuoted_escape`: a quoted text is read back.
* `scalarText_eq_self_iff`: a plain text is read as itself if the scanner finds no end and no
  indicator in it.
-/

namespace PageSpeed.Yaml

open Wire

/-- The white space within a line. -/
def isWhite (c : UInt8) : Bool := c = ch ' ' ∨ c = ch '\t'

/-- Behind the opening quote: the text, and what follows the closing quote. -/
def readQuoted : Bytes → Option (Bytes × Bytes)
  | [] => none
  | [c] => if c = ch '"' then some ([], []) else none
  | c :: e :: rest =>
    if c = ch '"' then some ([], e :: rest)
    else if c ≠ ch '\\' then (readQuoted (e :: rest)).map fun r => (c :: r.1, r.2)
    else if e = ch '"' ∨ e = ch '\\' then (readQuoted rest).map fun r => (e :: r.1, r.2)
    else none

/-- A plain scalar behind `prev`: a `#` behind a blank starts a comment, and a `:` in front of a
blank or the end of the line would start a value. -/
def readPlain (prev : UInt8) : Bytes → Option Bytes
  | [] => some []
  | c :: rest =>
    if c = ch '#' ∧ isWhite prev then some []
    else if c = ch ':' ∧ rest.head?.all isWhite then none
    else (readPlain c rest).map (c :: ·)

/-- A text without the white space at its end. -/
def trimBlanks (s : Bytes) : Bytes := (s.reverse.dropWhile isWhite).reverse

/-- The indicators do not start a plain scalar, but for three of them in front of something else
than a blank. -/
def startsPlain (c : UInt8) (rest : Bytes) : Bool :=
  c ∉ lit "-?:,[]\x7b\x7d#&*!|>'\"%@\x60" ∨ c ∈ lit "-?:" ∧ rest.head?.any (!isWhite ·)

/-- The text of a scalar behind its key. -/
def scalarText (value : Bytes) : Option Bytes :=
  match value.dropWhile isWhite with
  | [] => none
  | c :: rest =>
    if c = ch '"' then
      (readQuoted rest).bind fun r =>
        let after := r.2.dropWhile isWhite
        if after = [] ∨ after.head? = some (ch '#') ∧ r.2.head?.any isWhite then some r.1 else none
    else if startsPlain c rest then (readPlain (ch ' ') (c :: rest)).map trimBlanks
    else none

/-- A line as a key and its value. -/
def readEntry (line : Bytes) : Option (Bytes × Bytes) :=
  match line.dropWhile (· ≠ ch ':') with
  | _ :: b :: value =>
    if isWhite b then (scalarText value).map (line.takeWhile (· ≠ ch ':'), ·) else none
  | _ => none

/-- The first document of a stream. -/
def readDocument (s : Bytes) : Option (List (Bytes × Bytes)) :=
  match s.splitOn (ch '\n') with
  | [] => none
  | first :: lines =>
    if first = lit "---" ∧ lit "---" ∈ lines then
      (lines.takeWhile (· ≠ lit "---")).mapM readEntry else none

/-- A character between quotes. -/
def escape (c : UInt8) : Bytes := if c = ch '"' ∨ c = ch '\\' then [ch '\\', c] else [c]

/-- A quoted text is read back. -/
theorem readQuoted_escape (text rest : Bytes) :
    readQuoted (text.flatMap escape ++ ch '"' :: rest) = some (text, rest) := by
  induction text with
  | nil => cases rest <;> rfl
  | cons c text ih =>
    rw [List.flatMap_cons, escape]
    split_ifs with hc
    · simp only [List.cons_append, List.nil_append, readQuoted, ih]
      rcases hc with rfl | rfl <;> rfl
    · obtain ⟨hquote, hback⟩ := not_or.1 hc
      obtain ⟨e, t, he⟩ :=
        List.exists_cons_of_ne_nil (l := text.flatMap escape ++ ch '"' :: rest) (by simp)
      rw [List.append_assoc, he, List.singleton_append, readQuoted, if_neg hquote,
        if_pos hback, ← he, ih]
      rfl

/-- A plain scalar is read from the start of the text. -/
theorem readPlain_initial {s : Bytes} : ∀ {prev : UInt8} {r : Bytes}, readPlain prev s = some r →
    r <+: s := by
  induction s with
  | nil =>
    intro prev r h
    rw [← Option.some.inj h]
  | cons c rest ih =>
    intro prev r h
    rw [readPlain] at h
    split_ifs at h
    · rw [← Option.some.inj h]
      exact ⟨_, rfl⟩
    · obtain ⟨r, hr, rfl⟩ := Option.map_eq_some_iff.1 h
      exact List.cons_prefix_cons.2 ⟨rfl, ih hr⟩

theorem trimBlanks_initial (s : Bytes) : trimBlanks s <+: s := by
  rw [trimBlanks, ← List.reverse_suffix, List.reverse_reverse]
  exact List.dropWhile_suffix _

theorem trimBlanks_eq_self {s : Bytes} (h : s.getLast?.all (!isWhite ·)) : trimBlanks s = s := by
  rw [← List.head?_reverse] at h
  rw [trimBlanks, List.reverse_eq_iff]
  cases hs : s.reverse with
  | nil => rfl
  | cons c t =>
    rw [hs] at h
    exact List.dropWhile_cons_of_neg (by simpa using h)

/-- A text without quotes and without blanks at its end. -/
theorem scalarText_eq_self_iff {c : UInt8} {rest : Bytes} (hquote : ch '"' ∉ c :: rest)
    (hlast : (c :: rest).getLast?.all (!isWhite ·)) : scalarText (c :: rest) = some (c :: rest) ↔
      isWhite c = false ∧ startsPlain c rest ∧
        readPlain (ch ' ') (c :: rest) = some (c :: rest) := by
  by_cases hblank : isWhite c
  · -- what is read begins behind the blank
    refine iff_of_false (fun hread => ?_) (by simp [hblank])
    unfold scalarText at hread
    rw [List.dropWhile_cons_of_pos hblank] at hread
    have hsuffix := List.dropWhile_suffix isWhite (l := rest)
    cases hdrop : rest.dropWhile isWhite with
    | nil => simp [hdrop] at hread
    | cons d t =>
      rw [hdrop] at hread hsuffix
      have hd : d ≠ ch '"' :=
        fun hd => hquote (List.mem_cons_of_mem c (hsuffix.subset (by simp [hd])))
      simp only [hd, if_false] at hread
      obtain ⟨-, hread⟩ := Option.ite_none_right_eq_some.1 hread
      obtain ⟨r, hr, heq⟩ := Option.map_eq_some_iff.1 hread
      have hle :=
        ((trimBlanks_initial r).trans (readPlain_initial hr)).length_le.trans hsuffix.length_le
      rw [heq, List.length_cons] at hle
      omega
  · -- a plain scalar is read as an initial part; equal to the whole only if it is the whole
    have hc : c ≠ ch '"' := fun hc => hquote (by simp [hc])
    rw [scalarText, List.dropWhile_cons_of_neg hblank]
    simp only [hc, if_false, hblank, true_and]
    rw [Option.ite_none_right_eq_some, Option.map_eq_some_iff]
    refine and_congr_right fun _ =>
      ⟨fun ⟨r, hr, heq⟩ => ?_, fun hr => ⟨_, hr, trimBlanks_eq_self hlast⟩⟩
    have hprefix := readPlain_initial hr
    have hle := (trimBlanks_initial r).length_le
    rw [heq] at hle
    rw [hr, hprefix.eq_of_length_le hle]

theorem mapM_map_eq_some_iff {α β γ : Type} {f : α → β} {g : β → Option γ} {out : α → γ}
    {as : List α} :
    (as.map f).mapM g = some (as.map out) ↔ ∀ a ∈ as, g (f a) = some (out a) := by
  induction as with
  | nil => simp
  | cons a as ih =>
    rw [List.map_cons, List.map_cons, List.mapM_cons, List.forall_mem_cons, ← ih]
    cases g (f a) <;> cases (as.map f).mapM g <;> simp

section Document

variable {α : Type} (key scalar : α → Bytes)

/-- A line of a document. -/
def line (a : α) : Bytes := key a ++ (lit ": " ++ scalar a)

/-- Lines of a key and a scalar between two markers, and an empty line. -/
def document (as : List α) : Bytes :=
  (lit "---" :: (as.map (line key scalar) ++ [lit "---", []])).flatMap (· ++ [ch '\n'])

variable {key scalar}

/-- A document is read back if every scalar is. -/
theorem readDocument_eq_some_iff {text : α → Bytes} {as : List α}
    (h : ∀ a ∈ as, ch '\n' ∉ key a ∧ ch ':' ∉ key a ∧ ch '\n' ∉ scalar a) :
    readDocument (document key scalar as) = some (as.map fun a => (key a, text a)) ↔
      ∀ a ∈ as, scalarText (scalar a) = some (text a) := by
  -- one line is read back as its key and what its scalar stands for
  have hentry : ∀ a ∈ as, readEntry (line key scalar a) = (scalarText (scalar a)).map (key a, ·) ∧
      line key scalar a ≠ lit "---" ∧ ch '\n' ∉ line key scalar a := by
    intro a ha
    obtain ⟨hnl, hcolon, hscalar⟩ := h a ha
    have hkey : ∀ c ∈ key a, decide (c ≠ ch ':') = true :=
      fun c hc => decide_eq_true fun heq => hcolon (heq ▸ hc)
    refine ⟨?_, fun heq => ?_, by simp [line, hnl, hscalar, show ch '\n' ∉ lit ": " by decide]⟩
    · rw [readEntry, line, List.dropWhile_append_of_pos hkey, List.takeWhile_append_of_pos hkey]
      simp [lit, ch, isWhite]
    · have hmem : ch ':' ∈ line key scalar a := by simp [line, show ch ':' ∈ lit ": " by decide]
      exact absurd (heq ▸ hmem) (by decide)
  have hlines : ∀ l ∈ lit "---" :: (as.map (line key scalar) ++ [lit "---", []]), ch '\n' ∉ l := by
    have hown : ch '\n' ∉ lit "---" := by decide
    simp only [List.mem_cons, List.mem_append, List.mem_map, List.not_mem_nil, or_false]
    rintro l (rfl | ⟨a, ha, rfl⟩ | rfl | rfl)
    exacts [hown, (hentry a ha).2.2, hown, List.not_mem_nil]
  -- the fences are taken off, and the lines between them read one by one
  have hread : readDocument (document key scalar as) =
      (as.map (line key scalar)).mapM readEntry := by
    unfold readDocument document
    rw [splitOn_lines hlines]
    have hkeep : ∀ l ∈ as.map (line key scalar), decide (l ≠ lit "---") = true := by
      intro l hl
      obtain ⟨a, ha, rfl⟩ := List.mem_map.1 hl
      exact decide_eq_true (hentry a ha).2.1
    simp only [List.cons_append, List.append_assoc]
    rw [if_pos (by simp), List.takeWhile_append_of_pos hkeep]
    simp
  rw [hread, mapM_map_eq_some_iff]
  refine forall₂_congr fun a ha => ?_
  rw [(hentry a ha).1]
  simp

end Document

end PageSpeed.Yaml
