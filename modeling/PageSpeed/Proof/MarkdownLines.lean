import PageSpeed.Proof.Sfv
import PageSpeed.Proof.MarkdownFences
import PageSpeed.Proof.MarkdownScopes

/-!
# What the lines of the Markdown start with

* `Fine`: the line starts of a text are none of the block markers, or ones that the extractor has
  opened.
* `Reads`: so are those that a reader of the Markdown finds outside of fenced blocks, and no block
  is left open.
* `Laid`, `Good`: what of the filter its lines depend on, and what is kept of it.
* `step_good`, `extract_unforged`: a page whose pending blocks have no marker at the start of a
  later line and open no fence forges no structure.
-/

namespace PageSpeed.Markdown

open Wire Run List Markdown.Filter Element

/-! ## Line starts -/

/-- The marks at the starts of lines, blanks aside. -/
abbrev starts (atStart : Bool) (t : Text) : Text := lineStarts isNewline isBlank atStart t

/-- Only blanks stand behind the last line end. -/
abbrev ends (atStart : Bool) (t : Text) : Bool := lineEnd isNewline isBlank atStart t

variable (events : List Event)

/-- An element of that kind has started. -/
def Opened : Structure → Prop
  | .heading => ∃ e, .startElement e ∈ events ∧ e.tag ∈ [Tag.h1, .h2, .h3, .h4, .h5, .h6, .summary]
  | .blockquote => ∃ e, .startElement e ∈ events ∧ e.tag = .blockquote
  | .table => ∃ e, .startElement e ∈ events ∧ e.tag = .table
  | .listItem => ∃ e, .startElement e ∈ events ∧ e.tag = .li
  | .rule => ∃ e, .startElement e ∈ events ∧ e.tag = .hr
  | .frontMatter => True

/-- The extractor has put the byte there to open something that has started. -/
def Allowed (o : Origin) : Prop := ∃ k, o = .opened k ∧ Opened events k

/-- No line starts with a marker that is not allowed. -/
def Fine (atStart : Bool) (t : Text) : Prop :=
  ∀ m ∈ starts atStart t, isBlockMarker m.byte → Allowed events m.origin

/-- The starts of lines, part by part. -/
theorem starts_append (atStart : Bool) (t u : Text) : starts atStart (t ++ u) = starts atStart t ++
    starts (ends atStart t) u :=
  lineStarts_append atStart t u

variable {events : List Event} {atStart : Bool} {t u : Text} {o : Origin} {s : Bytes}
  {k : Structure}

theorem Opened.mono (h : Opened events k) (more : List Event) : Opened (events ++ more) k := by
  cases k with
  | frontMatter => trivial
  | _ =>
    obtain ⟨e, he, htag⟩ := h
    exact ⟨e, mem_append_left more he, htag⟩

/-- What was opened stays opened. -/
theorem Fine.mono (h : Fine events atStart t) (more : List Event) :
    Fine (events ++ more) atStart t := by
  intro m hm hmark
  obtain ⟨k, hk, ho⟩ := h m hm hmark
  exact ⟨k, hk, ho.mono more⟩

/-- A text is fine part by part. -/
theorem fine_append : Fine events atStart (t ++ u) ↔ Fine events atStart t ∧
    Fine events (ends atStart t) u := by
  unfold Fine
  rw [starts_append]
  exact forall_mem_append

theorem Fine.append (ht : Fine events atStart t) (hu : Fine events (ends atStart t) u) :
    Fine events atStart (t ++ u) :=
  fine_append.2 ⟨ht, hu⟩

/-- Text within a line starts none. -/
theorem fine_within (h : ∀ m ∈ t, isNewline m = false) : Fine events false t := by
  have hnone : starts false t = [] := lineStarts_of_within h
  intro m hm
  rw [hnone] at hm
  cases hm

/-- Lines that start with no marker are fine. -/
theorem fine_plain (h : ∀ m ∈ starts atStart t, isBlockMarker m.byte = false) :
    Fine events atStart t := by
  intro m hm hmark
  rw [h m hm] at hmark
  cases hmark

/-- Bytes for one purpose are fine if the purpose is, or if none of them is a marker. -/
theorem fine_mark (h : Allowed events o ∨ ∀ c ∈ s, isBlockMarker c = false) :
    Fine events atStart (mark o s) := by
  intro m hm hmark
  obtain ⟨c, hc, rfl⟩ := mem_map.1 (lineStarts_subset _ _ hm)
  rcases h with h | h
  · exact h
  · rw [h c hc] at hmark
    cases hmark

/-- Behind something solid a line has started. -/
theorem ends_mark (hline : ∀ c ∈ s, isLineEnd c = false) (hsolid : ∃ c ∈ s, c ≠ ch ' ') :
    ends atStart (mark o s) = false := by
  refine lineEnd_of_solid ?_ ?_ atStart
  · intro m hm
    obtain ⟨c, hc, rfl⟩ := mem_map.1 hm
    exact hline c hc
  · obtain ⟨c, hc, hne⟩ := hsolid
    exact ⟨⟨c, o⟩, mem_map_of_mem hc, decide_eq_false hne⟩

/-- A piece of the extractor's own within a line, and what follows it. -/
theorem Fine.behind (h : Allowed events o ∨ ∀ c ∈ s, isBlockMarker c = false)
    (hline : ∀ c ∈ s, isLineEnd c = false)
    (hsolid : ∃ c ∈ s, c ≠ ch ' ') (ht : Fine events false t) :
    Fine events atStart (mark o s ++ t) := by
  refine (fine_mark h).append ?_
  rwa [ends_mark hline hsolid]

/-! ## Reading -/

variable (events) in
/-- The lines that a reader finds outside of fenced blocks start as they may. -/
def Sound (t : Text) : Prop :=
  ∀ line ∈ outside none (linesOf t), ∀ m ∈ firstOf isBlank line, isBlockMarker m.byte →
    Allowed events m.origin

variable (events) in
/-- And no block is left open. -/
structure Reads (t : Text) : Prop where
  sound : Sound events t
  closed : fenceAfter none (linesOf t) = none

/-- Later events do not change what is read. -/
theorem Reads.mono (h : Reads events t) (more : List Event) : Reads (events ++ more) t where
  sound line hline m hm hmark := by
    obtain ⟨k, hk, ho⟩ := h.sound line hline m hm hmark
    exact ⟨k, hk, ho.mono more⟩
  closed := h.closed

/-- A text that opens no block. -/
theorem reads_of_fine (h : Fine events true t) (hfence : NoFence t) : Reads events t := by
  obtain ⟨hout, hafter⟩ := outside_plain hfence
  refine ⟨fun line hline m hm => ?_, hafter⟩
  rw [hout] at hline
  refine h m ?_
  rw [starts, (lineStarts_eq t).1]
  exact mem_filterMap.2 ⟨line, hline, hm⟩

theorem reads_nil : Reads events [] := reads_of_fine (fun _ hm => (not_mem_nil hm).elim)
  (by simp [NoFence, linesOf, opensFence, bytesOf])

/-- What is readable, a line end, and what is sound behind it. -/
theorem Reads.sound_line {m : Mark} (hm : isNewline m) (ht : Reads events t) (hu : Sound events u) :
    Sound events (t ++ m :: u) := by
  unfold Sound
  rw [linesOf_newline hm, outside_append, ht.closed]
  exact forall_mem_append.2 ⟨ht.sound, hu⟩

/-- One text behind the other, on a line of its own. -/
theorem Reads.line {m : Mark} (hm : isNewline m) (ht : Reads events t) (hu : Reads events u) :
    Reads events (t ++ m :: u) where
  sound := ht.sound_line hm hu.sound
  closed := by rw [linesOf_newline hm, fenceAfter_append, ht.closed, hu.closed]

/-- A piece of the extractor's own that starts a line, and what follows it. -/
theorem reads_behind (h : Allowed events o ∨ ∀ c ∈ s, isBlockMarker c = false)
    (hs : ∀ c ∈ s, isLineEnd c = false ∧ isTick c = false) (hsolid : ∃ c ∈ s, c ≠ ch ' ')
      (ht : Fine events false t)
    (hfence : ∀ line ∈ (linesOf t).tail, opensFence line = none) :
    Reads events (mark o s ++ t) := by
  refine reads_of_fine (Fine.behind h (fun c hc => (hs c hc).1) hsolid ht) ?_
  have hmem : ∀ m ∈ mark o s, isNewline m = false ∧ isTick m.byte = false := by
    intro m hm
    obtain ⟨c, hc, rfl⟩ := mem_map.1 hm
    exact hs c hc
  obtain ⟨m, hm⟩ : ∃ m, firstOf isBlank (mark o s) = some m := by
    obtain ⟨c, hc, hne⟩ := hsolid
    refine Option.ne_none_iff_exists'.1 fun hnone => hne ?_
    have hall := dropWhile_eq_nil_iff.1 (head?_eq_none_iff.1 hnone)
    simpa [isBlank] using hall ⟨c, o⟩ (mem_map_of_mem hc)
  exact noFence_behind (fun m hm => (hmem m hm).1) hm
    (hmem m ((dropWhile_sublist _).subset (mem_of_mem_head? hm))).2 hfence

/-- What the extractor writes itself is readable. -/
theorem reads_own (h : Allowed events o ∨ ∀ c ∈ s, isBlockMarker c = false)
    (hs : ∀ c ∈ s, isLineEnd c = false ∧ isTick c = false) (hsolid : ∃ c ∈ s, c ≠ ch ' ') :
    Reads events (mark o s) := by
  rw [← append_nil (mark o s)]
  exact reads_behind h hs hsolid (fun _ hm => (not_mem_nil hm).elim) fun _ hline =>
    (not_mem_nil hline).elim

/-- What is trimmed from the end changes nothing for the lines before it. -/
theorem sound_trimmed {w : Text} (hw : ∀ m ∈ w, isAsciiWs m.byte = true)
    (h : Sound events (t ++ w)) : Sound events t := by
  obtain ⟨init, last, ht, hadd⟩ := exists_last_line t
  have hticks : ∀ c : UInt8, isAsciiWs c = true → isTick c = false := by decide +kernel
  -- the blanks on the last line, and the lines behind it
  obtain ⟨more, hmore⟩ : ∃ more, linesOf (t ++ w) = init ++
      (last ++ w.takeWhile fun m => !isNewline m) :: more := by
    have hblank : ∀ m ∈ w.takeWhile fun m => !isNewline m, isNewline m = false := by
      intro m hm
      simpa using mem_takeWhile_imp hm
    cases hd : w.dropWhile fun m => !isNewline m with
    | nil =>
      have hall : (w.takeWhile fun m => !isNewline m) = w := by
        conv_rhs => rw [← takeWhile_append_dropWhile (p := fun m => !isNewline m) (l := w),
          hd, append_nil]
      exact ⟨[], by rw [hall] at hblank ⊢; exact hadd w hblank⟩
    | cons m r =>
      have hm : isNewline m = true := by
        have := head?_dropWhile_not (fun m => !isNewline m) w
        rw [hd] at this
        simpa using this
      refine ⟨linesOf r, ?_⟩
      conv_lhs => rw [← takeWhile_append_dropWhile (p := fun m => !isNewline m) (l := w),
        hd, ← append_assoc, linesOf_newline hm, hadd _ hblank]
      simp
  unfold Sound at h ⊢
  rw [hmore, outside_append] at h
  rw [ht, outside_append]
  obtain ⟨hinit, hrest⟩ := forall_mem_append.1 h
  refine forall_mem_append.2 ⟨hinit, fun line hline m hm => ?_⟩
  simp only [outside, append_nil] at hline
  split_ifs at hline with hopen
  · rw [mem_singleton.1 hline, Option.mem_def] at hm
    have hplain : opensFence (last ++ w.takeWhile fun m => !isNewline m) = none :=
      opensFence_append (fun m hm => hticks _ (hw m ((takeWhile_sublist _).subset hm))) hopen.2
    refine hrest (last ++ w.takeWhile fun m => !isNewline m) ?_ m (firstOf_append hm _)
    rw [outside, if_pos ⟨hopen.1, hplain⟩]
    exact mem_append_left _ (mem_singleton_self _)
  · cases hline

/-! ## Trimmed and escaped text -/

theorem trim_initial (t : Text) : trim t <+: t.dropWhile (isAsciiWs ·.byte) := by
  rw [trim, ← reverse_suffix, reverse_reverse]
  exact dropWhile_suffix _

/-- A trimmed text starts with no white space. -/
theorem trim_head {m : Mark} (h : m ∈ (trim t).head?) : isAsciiWs m.byte = false := by
  obtain ⟨r, hr⟩ := trim_initial t
  have hhead : (t.dropWhile (isAsciiWs ·.byte)).head? = some m := by
    rw [← hr, head?_append, h]
    rfl
  have hnot := head?_dropWhile_not (isAsciiWs ·.byte) t
  rw [hhead] at hnot
  simpa using hnot

theorem isNewline_of_ws {m : Mark} (h : isAsciiWs m.byte = false) : isNewline m = false ∧
    isBlank m = false := by
  simp only [isAsciiWs, decide_eq_false_iff_not, not_or] at h
  exact ⟨decide_eq_false (not_or.2 ⟨h.2.2.1, h.2.2.2.1⟩), decide_eq_false h.1⟩

/-- The escape in front keeps the lines that follow. -/
theorem starts_false_escapeLeading (t : Text) :
    starts false (escapeLeadingMarker t) = starts false t := by
  unfold escapeLeadingMarker
  cases t with
  | nil => rfl
  | cons c t =>
    simp only
    split_ifs
    · rfl
    · rfl

/-- Trimmed text with its first character escaped starts with no marker. -/
theorem starts_escapeLeading (h : ∀ m ∈ t.head?, isAsciiWs m.byte = false)
    (hclean : ∀ m ∈ starts false t, isBlockMarker m.byte = false) :
    ∀ m ∈ starts true (escapeLeadingMarker t), isBlockMarker m.byte = false := by
  cases t with
  | nil => simp [escapeLeadingMarker, lineStarts]
  | cons c t =>
    obtain ⟨hn, hb⟩ := isNewline_of_ws (h c rfl)
    have htail : starts false (c :: t) = starts false t := by
      simp [lineStarts, hn]
    unfold escapeLeadingMarker
    simp only
    split_ifs with hc
    · have hstarts : starts true (⟨ch '\\', .inline⟩ :: c :: t) = ⟨ch '\\', .inline⟩ ::
          starts false (c :: t) := rfl
      rw [hstarts]
      exact forall_mem_cons.2 ⟨by decide, hclean⟩
    · have hstarts : starts true (c :: t) = c :: starts false t := by
        simp [lineStarts, hn, hb]
      rw [hstarts]
      exact forall_mem_cons.2 ⟨by simpa using hc, htail ▸ hclean⟩

/-! ## What the lines depend on -/

/-- The fields that have a part in the lines of the Markdown. -/
structure Laid where
  markdown : Text
  headingLevel : ℕ
  blockquoteDepth : ℕ
  itemOpen : Bool
  inTable : Bool
  table : Text
  rowCells : List Text

/-- The part of the state that the lines depend on. -/
def Filter.laid (s : Filter) : Laid :=
  ⟨s.markdown, s.headingLevel, s.blockquoteDepth, s.itemOpen, s.inTable, s.table, s.rowCells⟩

/-- The rows of a table are whole lines. -/
structure Rows (events : List Event) (t : Text) : Prop where
  fine : Fine events true t
  bars : ∀ m ∈ starts true t, isTick m.byte = false
  ends : ends true t = true
  head : ∀ m ∈ t.head?, isAsciiWs m.byte = false

/-- What is kept: the lines so far are fine, what is open has been opened, and the rows of a table
are lines. -/
structure Good (events : List Event) (s : Laid) : Prop where
  markdown : Reads events s.markdown
  heading : s.headingLevel > 0 → Opened events .heading
  quote : s.blockquoteDepth > 0 → Opened events .blockquote
  item : s.itemOpen → Opened events .listItem
  inTable : s.inTable → Opened events .table
  table : Rows events s.table
  cells : ∀ c ∈ s.rowCells, ∀ m ∈ c, isNewline m = false

/-- Later events keep the invariant. -/
theorem Good.mono {s : Laid} (h : Good events s) (more : List Event) : Good (events ++ more) s where
  markdown := h.markdown.mono more
  heading hl := (h.heading hl).mono more
  quote hq := (h.quote hq).mono more
  item hi := (h.item hi).mono more
  inTable ht := (h.inTable ht).mono more
  table := ⟨h.table.fine.mono more, h.table.bars, h.table.ends, h.table.head⟩
  cells := h.cells

namespace Filter

variable (x : Config) (s : Filter) (e : Element)

/-- Changes of the buffers do not touch the lines. -/
theorem Buffers.laid {s t : Filter} (h : Buffers s t) : t.laid = s.laid := by
  obtain ⟨_, _, _, _, rfl⟩ := h
  rfl

theorem laid_startSkipped : (s.startSkipped x e).laid = s.laid := by
  unfold startSkipped
  simp only
  split_ifs <;> rfl

theorem laid_endSkipped : (s.endSkipped x e).laid = s.laid := by
  unfold endSkipped
  split_ifs <;> rfl

theorem laid_openCode : (s.openCode e).laid = s.laid := by
  unfold openCode
  split_ifs <;> rfl

theorem laid_openAnchor : s.openAnchor.laid = s.laid := by
  unfold openAnchor
  split_ifs
  · exact (s.buffers_put _).laid
  · rfl

theorem laid_closeCode : s.closeCode.laid = s.laid := (s.buffers_put _).laid

theorem laid_closeAnchor : (s.closeAnchor e).laid = s.laid := by
  unfold closeAnchor
  split_ifs
  · exact (buffers_put _ _).laid
  · rfl

end Filter

/-! ## Blocks -/

section Blocks

variable {s : Filter} {body : Text} {cells : List Text}

/-- A block follows a blank line. -/
theorem reads_separated {separator : Bytes} (hsep : separator = lit "\n" ∨ separator = lit "\n\n")
    (h : Reads events t) (hbody : Reads events body) :
    Reads events ((if t ≠ [] then t ++ mark .inline separator else t) ++ body) := by
  have hnl : isNewline ⟨ch '\n', .inline⟩ = true := by decide
  split_ifs with ht
  · rw [append_assoc]
    rcases hsep with rfl | rfl
    · exact h.line hnl hbody
    · exact h.line hnl (reads_nil.line hnl hbody)
  · rw [not_not] at ht
    rwa [ht]

/-- A readable block keeps the invariant. -/
theorem Good.appendBlock (h : Good events s.laid) (hbody : Reads events body) :
    Good events (s.appendBlock body).laid := by
  unfold Filter.appendBlock
  split
  · exact h
  · exact { h with markdown := reads_separated (.inr rfl) h.markdown hbody }

/-- So does a readable item. -/
theorem Good.appendListItem (h : Good events s.laid) (hbody : Reads events body) :
    Good events (s.appendListItem body).laid := by
  unfold Filter.appendListItem
  split
  · exact h
  · refine { h with markdown := reads_separated ?_ h.markdown hbody }
    split_ifs
    · exact .inl rfl
    · exact .inr rfl

/-- The text that is flushed next, as far as its later lines go: those of a list item are
escaped. -/
def Filter.pending (s : Filter) : Text :=
  if s.headingLevel = 0 ∧ s.itemOpen ∧ s.lists ≠ [] then
    escapeInteriorLineMarkers (escapeLeadingMarker (trim s.cur)) else trim s.cur

/-- The pending text is written with nothing in front of its first line. -/
def Filter.bare (s : Filter) : Bool :=
  s.headingLevel = 0 ∧ ¬ (s.itemOpen ∧ s.lists ≠ []) ∧ s.blockquoteDepth = 0 ∧
    (s.inDt → ch '*' ∈ bytesOf (trim s.cur))

/-- No line of the pending text but the first starts with a block marker, and none that starts a
line of the Markdown opens a fenced block. -/
def Filter.Unforged (s : Filter) : Prop :=
  (∀ m ∈ starts false s.pending, isBlockMarker m.byte = false) ∧
    ∀ line ∈ (if s.bare then linesOf s.pending else (linesOf s.pending).tail),
      opensFence line = none

instance (s : Filter) : Decidable s.Unforged := inferInstanceAs (Decidable (_ ∧ _))

/-- The marker of an item is solid and on one line. -/
theorem nextMarker_solid (top : ListCtx) :
    (∀ c ∈ (Filter.nextMarker top).1, isLineEnd c = false ∧ isTick c = false) ∧
      ∃ c ∈ (Filter.nextMarker top).1, c ≠ ch ' ' := by
  have hdigits := (Sfv.decimal_spec (top.counter + 1)).1
  have hdigit : ∀ c, Inet.isDigit c → isLineEnd c = false ∧ isTick c = false := by decide +kernel
  have hdot : ∀ c ∈ lit ". ", isLineEnd c = false ∧ isTick c = false := by decide +kernel
  have hdash : ∀ c ∈ lit "- ", isLineEnd c = false ∧ isTick c = false := by decide +kernel
  unfold nextMarker
  split_ifs
  · refine ⟨fun c hc => ?_, ch '.', mem_append_right _ (by decide), by decide⟩
    rcases mem_append.1 hc with hc | hc
    · exact hdigit c (hdigits c hc)
    · exact hdot c hc
  · exact ⟨hdash, ch '-', (by decide : ch '-' ∈ lit "- "), by decide⟩

/-- The characters in front of a block are on its line, and none is of a fence. -/
theorem replicate_solid {n : ℕ} {c : UInt8} {rest : Bytes}
    (hc : isLineEnd c = false ∧ isTick c = false)
    (hline : ∀ c ∈ rest, isLineEnd c = false ∧ isTick c = false) :
    ∀ d ∈ List.replicate n c ++ rest, isLineEnd d = false ∧ isTick d = false := by
  intro d hd
  rcases mem_append.1 hd with hd | hd
  · rwa [eq_of_mem_replicate hd]
  · exact hline d hd

theorem linesOf_backslash (t : Text) :
    linesOf (⟨ch '\\', .inline⟩ :: t) = (linesOf t).modifyHead (⟨ch '\\', .inline⟩ :: ·) :=
  linesOf_within (t := [⟨ch '\\', .inline⟩]) (by decide) t

theorem tail_linesOf_escapeLeading (t : Text) :
    (linesOf (escapeLeadingMarker t)).tail = (linesOf t).tail := by
  unfold escapeLeadingMarker
  cases t with
  | nil => rfl
  | cons c t =>
    simp only
    split_ifs
    · rw [linesOf_backslash]
      cases linesOf (c :: t) <;> rfl
    · rfl

/-- Escaping opens no block. -/
theorem noFence_escapeLeading (h : NoFence t) : NoFence (escapeLeadingMarker t) := by
  unfold escapeLeadingMarker
  cases t with
  | nil => exact h
  | cons c t =>
    simp only
    split_ifs
    · exact noFence_behind (t := [⟨ch '\\', .inline⟩]) (by decide)
        (by decide : _ = some ⟨ch '\\', .inline⟩) (by decide)
        fun line hline => h line (mem_of_mem_tail hline)
    · exact h

theorem star_of_escapeLeading (h : ch '*' ∈ bytesOf (escapeLeadingMarker t)) :
    ch '*' ∈ bytesOf t := by
  unfold escapeLeadingMarker at h
  cases t with
  | nil => exact h
  | cons c t =>
    simp only at h
    split_ifs at h
    · exact (mem_cons.1 h).resolve_left (by decide)
    · exact h

/-- The collected block goes out readable, whatever it is. -/
theorem Good.flushBlock (h : Good events s.laid) (hs : s.Unforged) :
    Good events s.flushBlock.laid := by
  have hcur : Good events ({ s with cur := [] } : Filter).laid := h
  obtain ⟨hmarks, hfences⟩ := hs
  have hlater : ∀ line ∈ (linesOf s.pending).tail, opensFence line = none := by
    split_ifs at hfences
    · exact fun line hline => hfences line (mem_of_mem_tail hline)
    · exact hfences
  unfold Filter.flushBlock
  simp only
  by_cases hbody : trim s.cur = []
  · rw [if_pos hbody]
    exact h
  rw [if_neg hbody]
  by_cases hhead : s.headingLevel > 0
  · rw [show s.pending = trim s.cur from if_neg (by omega)] at hmarks hlater
    rw [if_pos hhead]
    refine hcur.appendBlock (reads_behind (.inl ⟨_, rfl, h.heading hhead⟩) ?_
      ⟨ch '#', ?_, by decide⟩ (fine_plain hmarks) hlater)
    · exact replicate_solid (by decide) (by decide +kernel)
    · exact mem_append_left _ (mem_replicate.2 ⟨by omega, rfl⟩)
  rw [if_neg hhead]
  split
  · rename_i top lists hlists
    obtain ⟨hitem, hls⟩ : s.itemOpen ∧ s.lists = top :: lists := by
      split_ifs at hlists with hitem
      exact ⟨hitem, hlists⟩
    obtain ⟨hline, c, hc, hsolid⟩ := nextMarker_solid top
    rw [show s.pending = _ from if_pos ⟨by omega, hitem, by simp [hls]⟩] at hmarks hlater
    have hkept : Good events ({ s with cur := [], lists := (nextMarker top).2 :: lists } :
        Filter).laid := h
    have hreads := hkept.appendListItem (reads_behind (.inl ⟨_, rfl, h.item hitem⟩)
      (replicate_solid (n := (min (top :: lists).length kMaxListIndentLevels - 1) * 2) (c := ch ' ')
        (by decide) hline)
      ⟨c, mem_append_right _ hc, hsolid⟩ (fine_plain hmarks) hlater)
    exact { hreads with item := fun hopen => absurd hopen Bool.false_ne_true }
  · rename_i hlists
    have hno : ¬ (s.itemOpen ∧ s.lists ≠ []) := by
      rintro ⟨hitem, hls⟩
      rw [if_pos hitem] at hlists
      exact hls hlists
    rw [show s.pending = trim s.cur from if_neg fun hp => hno hp.2] at hmarks hfences hlater
    have hesc : Fine events false (escapeLeadingMarker (trim s.cur)) := by
      refine fine_plain ?_
      rwa [starts_false_escapeLeading]
    rw [← tail_linesOf_escapeLeading] at hlater
    -- without anything in front, the first line is looked at as well
    have hfirst (hquote : ¬ s.blockquoteDepth > 0) (hdt : s.inDt → ch '*' ∈ bytesOf (trim s.cur)) :
        Reads events (escapeLeadingMarker (trim s.cur)) := by
      rw [if_pos (show s.bare = true from decide_eq_true ⟨by omega, hno, by omega, hdt⟩)] at hfences
      exact reads_of_fine (fine_plain (starts_escapeLeading (fun _ => trim_head) hmarks))
        (noFence_escapeLeading hfences)
    have hstars : ∀ c ∈ lit "**", isBlockMarker c = false := by decide +kernel
    have hgt : ∀ c ∈ lit "> ", isLineEnd c = false ∧ isTick c = false := by decide +kernel
    split_ifs with hquote hdt hstar
    · refine hcur.appendBlock (reads_behind (.inl ⟨_, rfl, h.quote hquote⟩) ?_ ?_ hesc hlater)
      · intro c hc
        obtain ⟨piece, hpiece, hc⟩ := mem_flatten.1 hc
        rw [eq_of_mem_replicate hpiece] at hc
        exact hgt c hc
      · refine ⟨ch '>', mem_flatten.2 ⟨lit "> ", mem_replicate.2 ⟨?_, rfl⟩, by decide⟩, by decide⟩
        simp only [kMaxBlockquoteDepth]
        omega
    · exact hcur.appendBlock (hfirst hquote fun _ => star_of_escapeLeading hstar)
    · refine hcur.appendBlock ?_
      rw [append_assoc]
      refine reads_behind (.inr hstars) (by decide +kernel) ⟨ch '*', by decide, by decide⟩
        (hesc.append ?_) ?_
      · exact fine_mark (.inr hstars)
      · exact tail_append_last (by decide +kernel) hlater
    · exact hcur.appendBlock (hfirst hquote fun hin => absurd hin hdt)

theorem fine_initial (h : Fine events atStart t) (hu : u <+: t) : Fine events atStart u := by
  obtain ⟨r, rfl⟩ := hu
  exact (fine_append.1 h).1

/-- So does code between its fences. -/
theorem Good.closePre (h : Good events s.laid) : Good events s.closePre.laid := by
  have hlanguage : ∀ c, isLanguageChar c → isLineEnd c = false ∧ c ≠ ch '\x60' := by decide +kernel
  have hlang : ∀ c ∈ (if s.preDepth - 1 = 0 then sanitizeFenceLanguage s.preLanguage else []),
      isLineEnd c = false ∧ c ≠ ch '\x60' := by
    split_ifs
    · exact fun c hc => hlanguage c (mem_takeWhile_imp (mem_of_mem_take hc))
    · simp
  have hdone (language : Bytes) : Good events
      ({ s with preDepth := s.preDepth - 1, cur := [], preLanguage := language } : Filter).laid := h
  unfold Filter.closePre
  simp only
  generalize (s.cur.reverse.dropWhile fun c => c.byte = ch '\n' ∨ c.byte = ch '\r').reverse = body
  have hbytes : bytesOf (mark .fenced (bytesOf body)) = bytesOf body := by
    simp [bytesOf, mark, Function.comp_def]
  obtain ⟨hout, hclosed⟩ := fence_reads (t := mark .fenced (bytesOf body))
    (n := max 3 (longestBacktickRun (bytesOf body) + 1)) (by omega) hlang (by rw [hbytes]; omega)
  have hreads : Reads events _ :=
    ⟨fun line hline => absurd hline (by rw [hout]; exact not_mem_nil), hclosed⟩
  by_cases hdepth : s.preDepth - 1 = 0
  · simp only [if_pos hdepth] at hreads ⊢
    split_ifs
    · exact h
    · exact (hdone []).appendBlock hreads
  · simp only [if_neg hdepth] at hreads ⊢
    split_ifs
    · exact h
    · exact (hdone s.preLanguage).appendBlock hreads

theorem rows_nil : Rows events [] where
  fine _ hm := (not_mem_nil hm).elim
  bars _ hm := (not_mem_nil hm).elim
  ends := rfl
  head _ hm := (Option.not_mem_none _ hm).elim

/-- A table goes out readable. -/
theorem Good.closeTable (h : Good events s.laid) : Good events s.closeTable.laid := by
  have hclosed : Good events ({ s with inTable := false, table := [] } : Filter).laid :=
    { h with
      inTable := fun hopen => absurd hopen Bool.false_ne_true
      table := rows_nil }
  have hdrop : s.table.dropWhile (isAsciiWs ·.byte) = s.table := by
    cases htable : s.table with
    | nil => rfl
    | cons m t =>
      refine dropWhile_cons_of_neg ?_
      simp [h.table.head m (by simp [laid, htable])]
  have hpre : trim s.table <+: s.table := (trim_initial s.table).trans (by rw [hdrop])
  unfold Filter.closeTable
  simp only
  split_ifs
  · exact hclosed
  · refine hclosed.appendBlock (reads_of_fine (fine_initial h.table.fine hpre)
      (noFence_of_starts fun m hm => ?_))
    obtain ⟨r, hr⟩ := hpre
    refine h.table.bars m ?_
    show m ∈ starts true s.table
    rw [← hr, starts_append]
    exact mem_append_left _ hm

/-- The first bar of a row starts its line. -/
theorem starts_tableRow (hcells : ∀ c ∈ cells, ∀ m ∈ c, isNewline m = false) :
    starts true (Filter.tableRow cells) = [⟨ch '|', .opened .table⟩] := by
  have hbar : ∀ m ∈ mark (.opened .table) (lit " |"), isNewline m = false := by decide +kernel
  have hgap : ∀ m ∈ mark (.opened .table) (lit " "), isNewline m = false := by decide +kernel
  have hrest : ∀ m ∈ cells.flatMap fun c =>
      mark (.opened .table) (lit " ") ++ c ++ mark (.opened .table) (lit " |"),
      isNewline m = false := by
    intro m hm
    obtain ⟨c, hc, hm⟩ := mem_flatMap.1 hm
    rcases mem_append.1 hm with hm | hm
    · rcases mem_append.1 hm with hm | hm
      · exact hgap m hm
      · exact hcells c hc m hm
    · exact hbar m hm
  have hnone : starts false _ = [] := lineStarts_of_within hrest
  exact congrArg (⟨ch '|', .opened .table⟩ :: ·) hnone

/-- A row keeps the table in shape. -/
theorem Rows.row (h : Rows events t) (hopen : Opened events .table)
    (hcells : ∀ c ∈ cells, ∀ m ∈ c, isNewline m = false) :
    Rows events (t ++ Filter.tableRow cells ++ mark .inline (lit "\n")) where
  fine := by
    refine (h.fine.append ?_).append (fine_mark (.inr (by decide +kernel)))
    rw [h.ends]
    intro m hm _
    rw [starts_tableRow hcells, mem_singleton] at hm
    exact ⟨.table, by rw [hm], hopen⟩
  bars := by
    intro m hm
    rw [starts_append, starts_append, h.ends] at hm
    rcases mem_append.1 hm with hm | hm
    · rcases mem_append.1 hm with hm | hm
      · exact h.bars m hm
      · rw [starts_tableRow hcells, mem_singleton] at hm
        rw [hm]
        decide
    · rw [mem_singleton.1 (lineStarts_subset _ _ hm)]
      decide
  ends := lineEnd_concat rfl true _
  head := by
    cases t with
    | cons m t => exact h.head
    | nil =>
      intro m hm
      obtain rfl : ⟨ch '|', .opened .table⟩ = m := Option.some.inj hm
      decide

theorem Good.closeRow (h : Good events s.laid) : Good events s.closeRow.laid := by
  have hdash : ∀ c ∈ s.rowCells.map fun _ => mark .inline (lit "---"), ∀ m ∈ c,
      isNewline m = false := by
    intro c hc
    obtain ⟨_, -, rfl⟩ := mem_map.1 hc
    decide +kernel
  unfold Filter.closeRow
  simp only
  split_ifs with hin hroom hdone
  · exact h
  · exact { h with
      table := h.table.row (h.inTable (Bool.of_not_eq_false hin)) h.cells
      cells := by simp [laid] }
  · have hopen := h.inTable (Bool.of_not_eq_false hin)
    exact { h with table := (h.table.row hopen h.cells).row hopen hdash, cells := by simp [laid] }
  · exact { h with cells := by simp [laid] }

/-- A cell is on one line. -/
theorem closeCell_cells (t : Text) : ∀ m ∈ escapeCell t, isNewline m = false := by
  intro m hm
  obtain ⟨c, -, hm⟩ := mem_flatMap.1 hm
  split_ifs at hm with hline hbar
  · rw [mem_singleton.1 hm]
    rfl
  · rcases mem_cons.1 hm with rfl | hm
    · rfl
    · rw [mem_singleton.1 hm]
      exact decide_eq_false hline
  · rw [mem_singleton.1 hm]
    exact decide_eq_false hline

end Blocks

/-! ## Events -/

/-- The elements whose start ends the block before it. -/
def Element.flushesAtStart (e : Element) : Bool :=
  e.tag ∈ [.h1, .h2, .h3, .h4, .h5, .h6, .p, .div, .section, .article, .main, .aside, .address, .dl,
    .dd, .dt, .blockquote, .pre, .ul, .ol, .li, .hr, .table]

/-- The elements whose end ends the block before it. -/
def Element.flushesAtEnd (e : Element) : Bool :=
  e.tag ∈ [.h1, .h2, .h3, .h4, .h5, .h6, .p, .div, .section, .article, .main, .aside, .address, .dl,
    .dd, .dt, .blockquote, .li, .ul, .ol]

namespace Filter

variable (x : Config) (s : Filter)

/-- The event flushes the pending block. -/
def flushes : Event → Bool
  | .startElement e =>
    let o := s.openScopes e
    ¬ s.skipping ∧ ¬ s.inInlineCode ∧ ¬ e.isHardStrip ∧
      ¬ (x.stripSoftChrome ∧ e.isSoftStripKeyword ∧
        ¬ (s.articleDepth > 0 ∧ (e.tag = .header ∨ e.tag = .footer))) ∧
      e.tag ≠ .time ∧ ¬ o.outsideContentRoot x ∧
        ¬ (o.inAnchorBlock ∧ (e.isBlockKeyword ∨ e.tag = .summary)) ∧
      (e.tag = .summary ∨ ¬ (o.inListItemBlock ∧ e.isListItemFoldKeyword) ∧ e.flushesAtStart)
  | .endElement e =>
    ¬ s.skipping ∧ ¬ s.inInlineCode ∧ ¬ s.outsideContentRoot x ∧
      ¬ (s.inAnchorBlock ∧ (e.isBlockKeyword ∨ e.tag = .summary)) ∧
      (e.tag = .summary ∨ ¬ (s.inListItemBlock ∧ e.isListItemFoldKeyword) ∧ e.flushesAtEnd)
  | .characters _ => false

/-- The condition on an event, in the state it finds: a block that it flushes has no marker at the
start of a later line. -/
def Clean (event : Event) : Prop := s.flushes x event → s.Unforged

instance (event : Event) : Decidable (s.Clean x event) := inferInstanceAs (Decidable (_ → _))

end Filter

section Step

variable {x : Config} {s : Filter} {e : Element}

/-- A start tag opens its kind of block. -/
theorem opened_start (h : Opened [.startElement e] k) (events : List Event) :
    Opened (events ++ [.startElement e]) k := by
  cases k with
  | frontMatter => trivial
  | _ =>
    obtain ⟨e', he, htag⟩ := h
    exact ⟨e', mem_append_right events he, htag⟩

section

variable (h : Good events s.laid)
include h

theorem Good.openHeading (hs : s.Unforged)
    (htag : e.tag ∈ [Tag.h1, .h2, .h3, .h4, .h5, .h6, .summary])
    (level : ℕ) : Good (events ++ [.startElement e]) (s.openHeading level).laid :=
  { (h.flushBlock hs).mono [.startElement e] with
    heading := fun _ => opened_start (k := .heading) ⟨e, mem_singleton_self _, htag⟩ events }

/-- A start tag that is not skipped. -/
theorem Good.startTag (hs : e.flushesAtStart → s.Unforged) :
    Good (events ++ [.startElement e]) (s.startTag e).laid := by
  have hflush (hf : e.flushesAtStart) : Good (events ++ [.startElement e]) s.flushBlock.laid :=
    (h.flushBlock (hs hf)).mono _
  have hsame : Good (events ++ [.startElement e]) s.laid := h.mono _
  have hput {t : Filter} (ht : t.laid = s.laid) : Good (events ++ [.startElement e]) t.laid :=
    ht ▸ hsame
  have hself : Event.startElement e ∈ [Event.startElement e] := mem_singleton_self _
  unfold Filter.startTag
  -- the tags by what they do: flush a block, open one, or write inline
  cases htag : e.tag
  case h1 | h2 | h3 | h4 | h5 | h6 =>
    exact h.openHeading (hs (by simp [flushesAtStart, htag])) (by simp [htag]) _
  case p | div | «section» | article | main | aside | address | dl | dd | dt | pre | ul | ol =>
    exact hflush (by simp [flushesAtStart, htag])
  case blockquote =>
    exact { hflush (by simp [flushesAtStart, htag]) with
      quote := fun _ => opened_start (k := .blockquote) ⟨e, hself, htag⟩ events }
  case li =>
    exact { hflush (by simp [flushesAtStart, htag]) with
      item := fun _ => opened_start (k := .listItem) ⟨e, hself, htag⟩ events }
  case hr =>
    refine (hflush (by simp [flushesAtStart, htag])).appendBlock
      (reads_own (.inl ⟨.rule, rfl, ?_⟩) (by decide +kernel) ⟨ch '-', by decide, by decide⟩)
    exact opened_start (k := .rule) ⟨e, hself, htag⟩ events
  case table =>
    exact { hflush (by simp [flushesAtStart, htag]) with
      inTable := fun _ => opened_start (k := .table) ⟨e, hself, htag⟩ events
      table := rows_nil
      cells := by simp [laid, openTable] }
  case tr => exact { hsame with cells := by simp [laid] }
  case br | strong | b | em | i => exact hput (s.buffers_putInline _).laid
  case code => exact hput (s.laid_openCode e)
  case a => exact hput s.laid_openAnchor
  case img => exact hput (s.buffers_putImage e).laid
  all_goals exact hsame

/-- An end tag that is not skipped. -/
theorem Good.endTag (hs : e.flushesAtEnd → s.Unforged) : Good events (s.endTag e).laid := by
  have hflush (hf : e.flushesAtEnd) : Good events s.flushBlock.laid := h.flushBlock (hs hf)
  have hput {t : Filter} (ht : t.laid = s.laid) : Good events t.laid := ht ▸ h
  unfold Filter.endTag
  cases htag : e.tag
  case h1 | h2 | h3 | h4 | h5 | h6 =>
    exact { hflush (by simp [flushesAtEnd, htag]) with
      heading := fun hpos => absurd hpos (Nat.lt_irrefl 0) }
  case p | div | «section» | article | main | aside | address | dl | dd | dt | ul | ol =>
    exact hflush (by simp [flushesAtEnd, htag])
  case blockquote =>
    exact { hflush (by simp [flushesAtEnd, htag]) with
      quote := fun hpos => h.quote (Nat.lt_of_lt_of_le hpos (Nat.sub_le _ _)) }
  case li =>
    exact { hflush (by simp [flushesAtEnd, htag]) with
      item := fun hopen => absurd hopen Bool.false_ne_true }
  case pre => exact h.closePre
  case td | th =>
    refine { h with cells := ?_ }
    exact forall_mem_append.2 ⟨h.cells, forall_mem_singleton.2 (closeCell_cells _)⟩
  case tr => exact h.closeRow
  case table => exact h.closeTable
  case strong | b | em | i => exact hput (s.buffers_putInline _).laid
  case a => exact hput (s.laid_closeAnchor e)
  all_goals exact h

/-- Every start tag keeps the invariant. -/
theorem startElement_good (hclean : s.Clean x (.startElement e)) :
    Good (events ++ [.startElement e]) (s.startElement x e).laid := by
  have hsame {t : Filter} (ht : t.laid = s.laid) : Good (events ++ [.startElement e]) t.laid :=
    ht ▸ h.mono _
  have hopen : Good events (s.openScopes e).laid := h
  unfold startElement
  dsimp only
  split_ifs with hskip hcode hhard hsoft htime hout hanchor hsum hfold
  · exact hsame (s.laid_startSkipped x e)
  · exact hsame rfl
  · exact hsame rfl
  · exact hsame rfl
  · exact hsame rfl
  · exact hsame rfl
  · exact hsame (buffers_anchorBlockJoin _).laid
  -- the scopes are open: what is flushed from here on is what was pending before
  all_goals
    have hflush (hf : e.tag = .summary ∨
      ¬ ((s.openScopes e).inListItemBlock ∧ e.isListItemFoldKeyword) ∧ e.flushesAtStart) :
        (s.openScopes e).Unforged :=
      hclean (decide_eq_true ⟨hskip, hcode, hhard, hsoft, htime, hout, hanchor, hf⟩)
  · exact hopen.openHeading (hflush (.inl hsum)) (by simp [hsum]) 3
  · exact hsame (buffers_listItemBlockJoin _).laid
  · exact hopen.startTag fun hf => hflush (.inr ⟨hfold, hf⟩)

/-- Every end tag keeps it. -/
theorem endElement_good (hclean : s.Clean x (.endElement e)) :
    Good events (s.endElement x e).laid := by
  have hsame {t : Filter} (ht : t.laid = s.laid) : Good events t.laid := ht ▸ h
  unfold endElement
  split_ifs with hskip hcode hclose hout hanchor hsum hfold
  · exact hsame (s.laid_endSkipped x e)
  · exact hsame s.laid_closeCode
  · exact h
  · exact hsame rfl
  · exact hsame rfl
  all_goals
    have hflush (hf : e.tag = .summary ∨ ¬ (s.inListItemBlock ∧ e.isListItemFoldKeyword) ∧
        e.flushesAtEnd) : s.Unforged :=
      hclean (decide_eq_true ⟨hskip, hcode, hout, hanchor, hf⟩)
  · exact { h.flushBlock (hflush (.inl hsum)) with
      heading := fun hpos => absurd hpos (Nat.lt_irrefl 0) }
  · exact hsame rfl
  · exact h.endTag fun hf => hflush (.inr ⟨hfold, hf⟩)

/-- **What one event keeps.** -/
theorem step_good (event : Event) (hclean : s.Clean x event) :
    Good (events ++ [event]) (s.step x event).laid := by
  cases event with
  | characters contents => exact (s.buffers_characters x contents).laid ▸ h.mono _
  | startElement e => exact startElement_good h hclean
  | endElement e => exact (endElement_good h hclean).mono _

end

end Step

/-! ## The front matter -/

theorem foldLines_line (v : Bytes) : ∀ c ∈ Filter.foldLines v, isLineEnd c = false := by
  intro c hc
  obtain ⟨d, -, rfl⟩ := mem_map.1 hc
  split_ifs with h
  · decide
  · exact decide_eq_false h

/-- A value of the front matter is on one line. -/
theorem yamlScalar_line (v : Bytes) : ∀ m ∈ yamlScalar v, isNewline m = false := by
  have hfold := foldLines_line v
  have hquote : ∀ m ∈ mark .inline (lit "\""), isNewline m = false := by decide +kernel
  unfold yamlScalar
  simp only
  split_ifs
  · intro m hm
    rcases mem_append.1 hm with hm | hm
    · rcases mem_append.1 hm with hm | hm
      · exact hquote m hm
      · obtain ⟨c, hc, hm⟩ := mem_flatMap.1 hm
        split_ifs at hm
        · rcases mem_cons.1 hm with rfl | hm
          · rfl
          · rw [mem_singleton.1 hm]
            exact hfold c hc
        · rw [mem_singleton.1 hm]
          exact hfold c hc
    · exact hquote m hm
  · intro m hm
    obtain ⟨c, hc, rfl⟩ := mem_map.1 hm
    exact hfold c hc

/-- A line of the front matter in front of a sound text. -/
theorem sound_frontMatterLine {key : String}
    (hkey : ∀ c ∈ lit key, isLineEnd c = false ∧ isTick c = false)
    (hsolid : ∃ c ∈ lit key, c ≠ ch ' ') (v : Bytes) (ht : Sound events t) :
    Sound events (frontMatterLine key v ++ t) := by
  have hnl : isNewline ⟨ch '\n', .inline⟩ = true := by decide
  unfold frontMatterLine
  split_ifs
  · exact ht
  · rw [append_assoc]
    refine Reads.sound_line hnl
      (reads_behind (.inl ⟨_, rfl, trivial⟩) hkey hsolid (fine_within (yamlScalar_line v)) ?_) ht
    rw [linesOf_single (yamlScalar_line v)]
    exact fun _ hline => (not_mem_nil hline).elim

/-- The front matter in front of a sound text. -/
theorem sound_frontMatter (x : Config) (date : Bytes) (ht : Sound events t) :
    Sound events (frontMatter x date ++ t) := by
  have hnl : isNewline ⟨ch '\n', .opened .frontMatter⟩ = true := by decide
  have hrule : Reads events (mark (.opened .frontMatter) (lit "---")) :=
    reads_own (.inl ⟨_, rfl, trivial⟩) (by decide +kernel) ⟨ch '-', by decide, by decide⟩
  have hlast : Sound events (mark (.opened .frontMatter) (lit "---\n\n") ++ t) :=
    hrule.sound_line hnl (reads_nil.sound_line hnl ht)
  unfold frontMatter
  simp only [append_assoc]
  refine hrule.sound_line hnl (u := frontMatterLine _ _ ++ _) ?_
  refine sound_frontMatterLine (by decide +kernel) ⟨ch ':', by decide, by decide⟩ _ ?_
  refine sound_frontMatterLine (by decide +kernel) ⟨ch ':', by decide, by decide⟩ _ ?_
  refine sound_frontMatterLine (by decide +kernel) ⟨ch ':', by decide, by decide⟩ _ ?_
  exact sound_frontMatterLine (by decide +kernel) ⟨ch ':', by decide, by decide⟩ _ hlast

/-! ## The whole page -/

/-- The document at its end is sound. -/
theorem endDocument_sound (x : Config) {s : Filter} (h : Good events s.laid) (hs : s.Unforged) :
    Sound events (s.endDocument x).markdown := by
  have hflush : Sound events s.flushBlock.markdown := (h.flushBlock hs).markdown.sound
  have htrim :
      Sound events (s.flushBlock.markdown.reverse.dropWhile (isAsciiWs ·.byte)).reverse := by
    refine sound_trimmed (w :=
      (s.flushBlock.markdown.reverse.takeWhile (isAsciiWs ·.byte)).reverse) (fun m hm => ?_) ?_
    · exact mem_takeWhile_imp (p := fun m : Mark => isAsciiWs m.byte) (mem_reverse.1 hm)
    · rwa [← reverse_append, takeWhile_append_dropWhile, reverse_reverse]
  unfold endDocument
  simp only
  split_ifs
  · exact htrim
  · exact sound_frontMatter x _ htrim

theorem good_empty : Good [] ({} : Filter).laid where
  markdown := reads_nil
  heading hpos := absurd hpos (Nat.lt_irrefl 0)
  quote hpos := absurd hpos (Nat.lt_irrefl 0)
  item hopen := absurd hopen Bool.false_ne_true
  inTable hopen := absurd hopen Bool.false_ne_true
  table := rows_nil
  cells _ hc := (not_mem_nil hc).elim

/-- **Page text forges no structure.** In a run in which no block that is flushed has a marker at
the start of a later line or opens a fence at the start of a line, a line that a reader of the
Markdown finds outside of fenced blocks and that starts with a block marker behind blanks is one the
extractor has opened for an element of that kind. -/
theorem extract_unforged (x : Config) (page : Forest)
    (h : Along (Filter.step x) (Filter.Clean x) {} page.events)
    (hend : (({} : Filter).run x page.events).Unforged) :
    ∀ line ∈ outside none (linesOf (extract x page).markdown), ∀ m ∈ firstOf isBlank line,
      isBlockMarker m.byte → ∃ k, m.origin = .opened k ∧ Opened page.events k := by
  have hgood : Good page.events (({} : Filter).run x page.events).laid :=
    foldl_along (I := fun events s => Good events s.laid)
      (fun _ _ event hs hok => step_good hs event hok) good_empty h
  exact endDocument_sound x hgood hend

/-- An item whose second line is page text with a marker, a quote, and preformatted text. -/
def unforgedPage : Forest :=
  .element { tag := .ul } (.element { tag := .li }
      (.characters (lit "a") (.element { tag := .br } .nil (.characters (lit "# b") .nil))) .nil)
    (.element { tag := .blockquote } (.characters (lit "- c") .nil)
      (.element { tag := .pre } (.characters (lit "d\n# e") .nil) .nil))

theorem extract_unforged_page :
    (∀ line ∈ outside none (linesOf (extract {} unforgedPage).markdown), ∀ m ∈ firstOf isBlank line,
      isBlockMarker m.byte → ∃ k, m.origin = .opened k ∧ Opened unforgedPage.events k) ∧
    bytesOf (extract {} unforgedPage).markdown =
      lit "- a  \n\\# b\n\n> \\- c\n\n\x60\x60\x60\nd\n# e\n\x60\x60\x60" :=
  ⟨extract_unforged {} unforgedPage (by decide +kernel) (by decide +kernel), by decide +kernel⟩

/-- **A line break forges a heading.** The second line of a paragraph is page text, and so is that
of a block that an element flushes within preformatted text. A paragraph of three backticks turns
the fences of the next block around, and what is in it is read as text. -/
theorem not_extract_unforged :
    (∃ line ∈ outside none (linesOf (extract {} (.element { tag := .p } (.characters (lit "a")
        (.element { tag := .br } .nil (.characters (lit "# b") .nil))) .nil)).markdown),
      firstOf isBlank line = some ⟨ch '#', .page⟩) ∧
    (∃ line ∈ outside none (linesOf (extract {} (.element { tag := .pre }
        (.characters (lit "a\n> b") (.element { tag := .p } .nil .nil)) .nil)).markdown),
      firstOf isBlank line = some ⟨ch '>', .page⟩) ∧
    ∃ line ∈ outside none (linesOf (extract {} (.element { tag := .p }
        (.characters (lit "\x60\x60\x60") .nil)
        (.element { tag := .pre } (.characters (lit "# c") .nil) .nil))).markdown),
      firstOf isBlank line = some ⟨ch '#', .fenced⟩ := by
  decide +kernel

end PageSpeed.Markdown
