import PageSpeed.Wire.LineStart
import PageSpeed.Spec.MarkdownExtractor

/-!
# Reading Markdown line by line

A reader of the Markdown knows nothing of where its bytes come from. Behind blanks, a line of three
or more backticks or tildes opens a fenced block, and the next line with at least as many of them,
and nothing else, closes it.

* `outside`, `fenceAfter`: the lines that are in no fenced block, and the block that is open at the
  end.
* `opensFence_append`: what is put behind a line makes no fence of it.
* `fence_reads`: more backticks than a text has in a row fence it.
-/

namespace PageSpeed.Markdown

open Wire List

/-- A reader of Markdown ends a line at either. -/
def isLineEnd (c : UInt8) : Bool := c = ch '\n' ∨ c = ch '\r'

/-- The mark ends a line. -/
def isNewline (m : Mark) : Bool := isLineEnd m.byte

/-- The mark is a blank. -/
def isBlank (m : Mark) : Bool := m.byte = ch ' '

/-- The characters that fences are made of. -/
def isTick (c : UInt8) : Bool := c = ch '\x60' ∨ c = ch '~'

/-- The lines of a text. -/
def linesOf (t : Text) : List Text := t.splitOnP isNewline

/-- What a fenced block was opened with: a character, and how many of it. -/
structure Fence where
  char : UInt8
  length : ℕ
  deriving DecidableEq

/-- The fence that a line opens. Behind backticks there are no more of them on the line. -/
def opensFence (line : Text) : Option Fence :=
  match bytesOf (line.dropWhile isBlank) with
  | [] => none
  | c :: rest =>
    let n := (rest.takeWhile (· = c)).length + 1
    if 3 ≤ n ∧ isTick c ∧ (c = ch '\x60' → ch '\x60' ∉ rest.dropWhile (· = c)) then
      some ⟨c, n⟩ else none

/-- A line closes the block with a fence that is not shorter, and only blanks behind it. -/
def Fence.closes (f : Fence) (line : Text) : Bool :=
  let l := bytesOf (line.dropWhile isBlank)
  f.length ≤ (l.takeWhile (· = f.char)).length ∧ (l.dropWhile (· = f.char)).all fun c =>
    c = ch ' ' ∨ c = ch '\t'

/-- The block that is open behind a line. -/
def afterLine : Option Fence → Text → Option Fence
  | none, line => opensFence line
  | some f, line => if f.closes line then none else some f

/-- The block that is open behind some lines. -/
def fenceAfter (f : Option Fence) (lines : List Text) : Option Fence := lines.foldl afterLine f

/-- The lines that are in no fenced block and open none. -/
def outside (f : Option Fence) : List Text → List Text
  | [] => []
  | line :: lines =>
    (if f = none ∧ opensFence line = none then [line] else []) ++ outside (afterLine f line) lines

variable {f : Option Fence} {fence : Fence} {line w t u : Text} {lines more : List Text}

/-- The lines outside of blocks, part by part. -/
theorem outside_append (f : Option Fence) (lines more : List Text) :
    outside f (lines ++ more) = outside f lines ++ outside (fenceAfter f lines) more := by
  induction lines generalizing f with
  | nil => rfl
  | cons line lines ih => rw [cons_append, outside, outside, ih, append_assoc]; rfl

/-- The open block, part by part. -/
theorem fenceAfter_append (f : Option Fence) (lines more : List Text) :
    fenceAfter f (lines ++ more) = fenceAfter (fenceAfter f lines) more := foldl_append

/-- Where no line opens a block, all lines are outside. -/
theorem outside_plain (h : ∀ line ∈ lines, opensFence line = none) :
    outside none lines = lines ∧ fenceAfter none lines = none := by
  induction lines with
  | nil => exact ⟨rfl, rfl⟩
  | cons line lines ih =>
    obtain ⟨hline, hlines⟩ := forall_mem_cons.1 h
    obtain ⟨hout, hafter⟩ := ih hlines
    have hnext : afterLine none line = none := hline
    refine ⟨?_, ?_⟩
    · rw [outside, if_pos ⟨rfl, hline⟩, hnext, hout, singleton_append]
    · rw [fenceAfter, foldl_cons, hnext]
      exact hafter

/-- Within a block nothing is outside. -/
theorem outside_within (h : ∀ line ∈ lines, fence.closes line = false) :
    outside (some fence) lines = [] ∧ fenceAfter (some fence) lines = some fence := by
  induction lines with
  | nil => exact ⟨rfl, rfl⟩
  | cons line lines ih =>
    obtain ⟨hline, hlines⟩ := forall_mem_cons.1 h
    obtain ⟨hout, hafter⟩ := ih hlines
    have hnext : afterLine (some fence) line = some fence := by rw [afterLine, hline]; rfl
    refine ⟨?_, ?_⟩
    · rw [outside, hnext, hout, if_neg (by simp), nil_append]
    · rw [fenceAfter, foldl_cons, hnext]
      exact hafter

/-- A whole block, from the line that opens it to the one that closes it. -/
theorem outside_block {first last : Text} (hfirst : opensFence first = some fence)
    (h : ∀ line ∈ lines, fence.closes line = false) (hlast : fence.closes last = true) :
    outside none (first :: (lines ++ [last])) = [] ∧
      fenceAfter none (first :: (lines ++ [last])) = none := by
  obtain ⟨hout, hafter⟩ := outside_within h
  have hopen : afterLine none first = some fence := hfirst
  have hclose : afterLine (some fence) last = none := by rw [afterLine, if_pos hlast]
  refine ⟨?_, ?_⟩
  · rw [outside, if_neg (by simp [hfirst]), nil_append, hopen, outside_append, hout, hafter,
      nil_append, outside, if_neg (by simp)]
    rfl
  · rw [fenceAfter, foldl_cons, hopen]
    show fenceAfter (some fence) (lines ++ [last]) = none
    rw [fenceAfter_append, hafter]
    exact hclose

/-! ## Lines -/

/-- What has no end of line stands in front of the first line. -/
theorem linesOf_within (h : ∀ m ∈ t, isNewline m = false) (u : Text) :
    linesOf (t ++ u) = (linesOf u).modifyHead (t ++ ·) := by
  induction t with
  | nil => cases hu : linesOf u <;> simp [hu]
  | cons m t ih =>
    obtain ⟨hm, ht⟩ := forall_mem_cons.1 h
    have ih := ih ht
    unfold linesOf at ih ⊢
    rw [cons_append, splitOnP_cons_eq_if_modifyHead, if_neg (by simp [hm]), ih,
      modifyHead_modifyHead]
    rfl

theorem linesOf_single (h : ∀ m ∈ t, isNewline m = false) : linesOf t = [t] :=
  splitOnP_eq_singleton h

/-- A line end separates the lines before it from those behind it. -/
theorem linesOf_newline {m : Mark} (h : isNewline m) (t u : Text) :
    linesOf (t ++ m :: u) = linesOf t ++ linesOf u :=
  splitOnP_append_cons t u h

theorem linesOf_ne_nil (t : Text) : linesOf t ≠ [] := splitOnP_ne_nil _ t

/-- What has no end of line stands behind the last line. -/
theorem exists_last_line (t : Text) : ∃ init last, linesOf t = init ++ [last] ∧
    ∀ w, (∀ m ∈ w, isNewline m = false) → linesOf (t ++ w) = init ++ [last ++ w] := by
  induction t with
  | nil => exact ⟨[], [], rfl, fun w hw => linesOf_single hw⟩
  | cons m t ih =>
    obtain ⟨init, last, ht, hw⟩ := ih
    unfold linesOf at ht hw ⊢
    simp only [cons_append, splitOnP_cons_eq_if_modifyHead]
    by_cases hm : isNewline m
    · refine ⟨[] :: init, last, by rw [if_pos hm, ht, cons_append], fun w h => ?_⟩
      rw [if_pos hm, hw w h, cons_append]
    · cases init with
      | nil =>
        refine ⟨[], m :: last, by rw [if_neg hm, ht]; rfl, fun w h => ?_⟩
        rw [if_neg hm, hw w h]
        rfl
      | cons i init =>
        refine ⟨(m :: i) :: init, last, by rw [if_neg hm, ht]; rfl, fun w h => ?_⟩
        rw [if_neg hm, hw w h]
        rfl

/-! ## Lines that open no block -/

/-- A line that has started starts the same with more behind it. -/
theorem firstOf_append {m : Mark} (h : firstOf isBlank line = some m) (w : Text) :
    firstOf isBlank (line ++ w) = some m := by
  unfold firstOf at h ⊢
  rw [dropWhile_append]
  cases hd : line.dropWhile isBlank with
  | nil => rw [hd] at h; cases h
  | cons a r => rw [hd] at h; simpa using h

/-- A line that starts with no fence character opens nothing. -/
theorem opensFence_of_first (h : ∀ m ∈ firstOf isBlank line, isTick m.byte = false) :
    opensFence line = none := by
  unfold opensFence
  unfold firstOf at h
  cases hd : line.dropWhile isBlank with
  | nil => rfl
  | cons m r =>
    have hm := h m (by rw [hd]; rfl)
    simp [bytesOf, hm]

theorem takeWhile_append_other {c : UInt8} {r w : Bytes} (hw : c ∉ w) :
    (r ++ w).takeWhile (· = c) = r.takeWhile (· = c) ∧
      (r ++ w).dropWhile (· = c) = r.dropWhile (· = c) ++ w := by
  induction r with
  | nil =>
    cases w with
    | nil => exact ⟨rfl, rfl⟩
    | cons d w =>
      have hd : d ≠ c := fun h => hw (h ▸ mem_cons_self)
      simp [hd]
  | cons d r ih =>
    by_cases hd : d = c
    · simp [hd, ih.1, ih.2]
    · simp [hd]

/-- **What is put behind a line makes no fence of it.** -/
theorem opensFence_append (hw : ∀ m ∈ w, isTick m.byte = false) (h : opensFence line = none) :
    opensFence (line ++ w) = none := by
  cases hd : line.dropWhile isBlank with
  | nil =>
    refine opensFence_of_first fun m hm => ?_
    unfold firstOf at hm
    rw [dropWhile_append, hd] at hm
    exact hw m ((dropWhile_sublist _).subset (mem_of_mem_head? hm))
  | cons m r =>
    by_cases htick : isTick m.byte = true
    · -- the line starts with a tick: its run does not grow, as `w` has none
      have hnot : m.byte ∉ bytesOf w := by
        intro hmem
        obtain ⟨a, ha, heq⟩ := mem_map.1 hmem
        rw [← heq, hw a ha] at htick
        cases htick
      obtain ⟨htake, hdrop⟩ := takeWhile_append_other (r := bytesOf r) hnot
      have hsame : bytesOf ((line ++ w).dropWhile isBlank) =
          m.byte :: (bytesOf r ++ bytesOf w) := by
        rw [dropWhile_append, hd]
        simp [bytesOf]
      have hline : bytesOf (line.dropWhile isBlank) = m.byte :: bytesOf r := by rw [hd]; rfl
      unfold opensFence at h ⊢
      rw [hline] at h
      rw [hsame]
      simp only [htake, hdrop, ite_eq_right_iff, reduceCtorEq, imp_false, not_and,
        mem_append] at h ⊢
      intro h3 ht hno
      exact h h3 ht fun hc hmem => hno hc (.inl hmem)
    · refine opensFence_of_first fun a ha => ?_
      have hfirst : firstOf isBlank line = some m := by rw [firstOf, hd]; rfl
      rw [firstOf_append hfirst, Option.mem_some] at ha
      rw [← ha]
      simpa using htick

/-- No line opens a block. -/
def NoFence (t : Text) : Prop := ∀ line ∈ linesOf t, opensFence line = none

/-- A piece within a line that starts with something else than a fence, and what follows it. -/
theorem noFence_behind {m : Mark} (hwithin : ∀ m ∈ t, isNewline m = false)
    (hfirst : firstOf isBlank t = some m)
    (htick : isTick m.byte = false) (h : ∀ line ∈ (linesOf u).tail, opensFence line = none) :
    NoFence (t ++ u) := by
  obtain ⟨line, lines, hu⟩ := exists_cons_of_ne_nil (linesOf_ne_nil u)
  rw [hu, tail_cons] at h
  unfold NoFence
  rw [linesOf_within hwithin, hu, modifyHead_cons]
  refine forall_mem_cons.2 ⟨opensFence_of_first fun a ha => ?_, h⟩
  rw [firstOf_append hfirst, Option.mem_some] at ha
  rwa [← ha]

/-- Text without fence characters at the end opens nothing either. -/
theorem tail_append_last (hw : ∀ m ∈ w, isTick m.byte = false ∧ isNewline m = false)
    (h : ∀ line ∈ (linesOf t).tail, opensFence line = none) : ∀ line ∈ (linesOf (t ++ w)).tail,
      opensFence line = none := by
  obtain ⟨init, last, ht, hadd⟩ := exists_last_line t
  rw [hadd w fun m hm => (hw m hm).2]
  rw [ht] at h
  cases init with
  | nil => simp
  | cons i init =>
    rw [cons_append, tail_cons] at h ⊢
    intro line hline
    rcases mem_append.1 hline with hline | hline
    · exact h line (mem_append_left _ hline)
    · rw [mem_singleton.1 hline]
      exact opensFence_append (fun m hm => (hw m hm).1) (h last (by simp))

/-- No line opens a block if none starts with a fence character. -/
theorem noFence_of_starts (h : ∀ m ∈ lineStarts isNewline isBlank true t, isTick m.byte = false) :
    NoFence t := by
  intro line hline
  refine opensFence_of_first fun m hm => h m ?_
  rw [(lineStarts_eq t).1]
  exact mem_filterMap.2 ⟨line, hline, hm⟩

/-! ## Fences -/

/-- The longest run so far is a lower bound. -/
theorem backtickRuns_ge (run maxRun : ℕ) (s : Bytes) : maxRun ≤ backtickRuns run maxRun s := by
  induction s generalizing run maxRun with
  | nil => exact le_rfl
  | cons c s ih =>
    rw [backtickRuns]
    split_ifs
    · exact (le_max_left _ _).trans (ih _ _)
    · exact ih _ _

/-- No run of backticks is longer than the longest one. -/
theorem run_le_longest (a b : Bytes) (n : ℕ) :
    n ≤ longestBacktickRun (a ++ (List.replicate n (ch '\x60') ++ b)) := by
  have hstart : ∀ n run maxRun : ℕ, run ≤ maxRun →
      run + n ≤ backtickRuns run maxRun (List.replicate n (ch '\x60') ++ b) := by
    intro n
    induction n with
    | zero => intro run maxRun h; exact h.trans (backtickRuns_ge _ _ _)
    | succ n ih =>
      intro run maxRun h
      rw [replicate_succ, cons_append, backtickRuns, if_pos rfl]
      have := ih (run + 1) (max maxRun (run + 1)) (le_max_right _ _)
      omega
  unfold longestBacktickRun
  suffices h : ∀ run maxRun : ℕ, run ≤ maxRun →
    n ≤ backtickRuns run maxRun (a ++ (List.replicate n (ch '\x60') ++ b)) from
    h 0 0 le_rfl
  induction a with
  | nil => intro run maxRun h; have := hstart n run maxRun h; rw [nil_append]; omega
  | cons c a ih =>
    intro run maxRun h
    rw [cons_append, backtickRuns]
    split_ifs
    · exact ih _ _ (le_max_right _ _)
    · exact ih _ _ (Nat.zero_le _)

theorem infix_of_linesOf {first : Text} {rest : List Text} (h : linesOf t = first :: rest) :
    first <+: t ∧ ∀ line ∈ rest, line <:+: t := by
  induction t generalizing first rest with
  | nil =>
    obtain ⟨rfl, rfl⟩ := cons.inj (h.symm.trans (rfl : linesOf [] = [[]]))
    simp
  | cons m t ih =>
    obtain ⟨first', rest', ht⟩ := exists_cons_of_ne_nil (linesOf_ne_nil t)
    obtain ⟨hfirst, hrest⟩ := ih ht
    unfold linesOf at h ht
    rw [splitOnP_cons_eq_if_modifyHead, ht] at h
    split_ifs at h
    · obtain ⟨rfl, rfl⟩ := cons.inj h
      refine ⟨ nil_prefix, fun line hline => ?_⟩
      rcases mem_cons.1 hline with rfl | hline
      · exact (hfirst.isInfix).trans (suffix_cons m t).isInfix
      · exact (hrest line hline).trans (suffix_cons m t).isInfix
    · obtain ⟨rfl, rfl⟩ := cons.inj h
      exact ⟨cons_prefix_cons.2 ⟨rfl, hfirst⟩, fun line hline =>
        (hrest line hline).trans (suffix_cons m t).isInfix⟩

/-- A line is a part of the text. -/
theorem infix_of_mem_linesOf (h : line ∈ linesOf t) : line <:+: t := by
  obtain ⟨first, rest, ht⟩ := exists_cons_of_ne_nil (linesOf_ne_nil t)
  obtain ⟨hfirst, hrest⟩ := infix_of_linesOf ht
  rw [ht] at h
  rcases mem_cons.1 h with rfl | hline
  · exact hfirst.isInfix
  · exact hrest line hline

/-- No line of a text closes a fence that is longer than its runs of backticks. -/
theorem not_closes_of_longest {n : ℕ} (hn : longestBacktickRun (bytesOf t) < n)
    (hline : line ∈ linesOf t) :
    (⟨ch '\x60', n⟩ : Fence).closes line = false := by
  rw [Fence.closes, decide_eq_false_iff_not]
  rintro ⟨hle, -⟩
  generalize hl : bytesOf (line.dropWhile isBlank) = l at hle
  replace hle : n ≤ (l.takeWhile (· = ch '\x60')).length := hle
  have hrun : l.takeWhile (· = ch '\x60') = List.replicate (l.takeWhile (· = ch '\x60')).length
      (ch '\x60') :=
    eq_replicate_of_mem fun c hc => by simpa using mem_takeWhile_imp hc
  obtain ⟨a, b, hab⟩ : l <:+: bytesOf t := by
    rw [← hl]
    exact ((dropWhile_suffix _).isInfix.trans (infix_of_mem_linesOf hline)).map _
  have hlong :=
    run_le_longest a (l.dropWhile (· = ch '\x60') ++ b) (l.takeWhile (· = ch '\x60')).length
  rw [← hrun, ← append_assoc (l.takeWhile _), takeWhile_append_dropWhile, ← append_assoc,
    hab] at hlong
  omega

/-- **A text is fenced by more backticks than it has in a row.** -/
theorem fence_reads {n : ℕ} {lang : Bytes} (hn : 3 ≤ n)
    (hlang : ∀ c ∈ lang, isLineEnd c = false ∧ c ≠ ch '\x60')
    (hcode : longestBacktickRun (bytesOf t) < n) :
    let block :=
      mark .inline (List.replicate n (ch '\x60')) ++ mark .page lang ++ mark .inline (lit "\n") ++
        t ++ mark .inline (lit "\n") ++ mark .inline (List.replicate n (ch '\x60'))
    outside none (linesOf block) = [] ∧ fenceAfter none (linesOf block) = none := by
  intro block
  obtain ⟨k, rfl⟩ : ∃ k, n = k + 1 := ⟨n - 1, by omega⟩
  -- neither the fence nor the language ends a line
  have hline : ∀ m ∈ mark .inline (List.replicate (k + 1) (ch '\x60')), isNewline m = false := by
    intro m hm
    obtain ⟨c, hc, rfl⟩ := mem_map.1 hm
    rw [eq_of_mem_replicate hc]
    decide
  have hfirst : ∀ m ∈ mark .inline (List.replicate (k + 1) (ch '\x60')) ++ mark .page lang,
      isNewline m = false := by
    intro m hm
    rcases mem_append.1 hm with hm | hm
    · exact hline m hm
    · obtain ⟨c, hc, rfl⟩ := mem_map.1 hm
      exact (hlang c hc).1
  have hlines : linesOf block =
    (mark .inline (List.replicate (k + 1) (ch '\x60')) ++ mark .page lang) ::
      (linesOf t ++ [mark .inline (List.replicate (k + 1) (ch '\x60'))]) := by
    have hnl : isNewline ⟨ch '\n', .inline⟩ = true := by decide
    have hblock : block = (mark .inline (List.replicate (k + 1) (ch '\x60')) ++ mark .page lang) ++
        ⟨ch '\n', .inline⟩ :: (t ++
          ⟨ch '\n', .inline⟩ :: mark .inline (List.replicate (k + 1) (ch '\x60'))) := by
      simp only [block, append_assoc]
      rfl
    rw [hblock, linesOf_newline hnl, linesOf_newline hnl, linesOf_single hfirst,
      linesOf_single hline]
    rfl
  have hnot : ch '\x60' ∉ lang := fun h => (hlang _ h).2 rfl
  have hrun : ∀ k, (List.replicate k (ch '\x60')).takeWhile (· = ch '\x60') =
    List.replicate k (ch '\x60') ∧
      (List.replicate k (ch '\x60')).dropWhile (· = ch '\x60') = [] := by simp
  -- the first line opens the fence, no line of the code closes it, and the last one does
  rw [hlines]
  refine outside_block (?_ : _ = some ⟨ch '\x60', k + 1⟩)
    (fun line hl => not_closes_of_longest hcode hl) ?_
  · have hbytes : bytesOf
      ((mark .inline (List.replicate (k + 1) (ch '\x60')) ++ mark .page lang).dropWhile isBlank) =
        ch '\x60' :: (List.replicate k (ch '\x60') ++ lang) := by
      rw [replicate_succ, mark, map_cons, cons_append,
        dropWhile_cons_of_neg (by simp [isBlank]; decide)]
      simp [bytesOf, mark, Function.comp_def]
    obtain ⟨htake, hdrop⟩ := takeWhile_append_other (r := List.replicate k (ch '\x60')) hnot
    unfold opensFence
    rw [hbytes]
    simp only [htake, hdrop, (hrun k).1, (hrun k).2, length_replicate, nil_append]
    rw [if_pos ⟨hn, by decide, fun _ => hnot⟩]
  · have hbytes : bytesOf ((mark .inline (List.replicate (k + 1) (ch '\x60'))).dropWhile isBlank) =
        List.replicate (k + 1) (ch '\x60') := by
      rw [replicate_succ, mark, map_cons, dropWhile_cons_of_neg (by simp [isBlank]; decide)]
      simp [bytesOf]
    unfold Fence.closes
    simp only [hbytes, (hrun (k + 1)).1, (hrun (k + 1)).2, length_replicate]
    simp

end PageSpeed.Markdown
