import PageSpeed.Run.Total
import PageSpeed.Spec.MarkdownExtractor

/-!
# The scopes of the Markdown extractor

The depth counters are a machine of their own: no text and no other flag has a part in them. Where
an element is of one kind only, its end undoes what its start has done.

* `Scopes`, `startElement_scopes`, `endElement_scopes`: the machine, and that the filter runs it.
* `finish_start`: the end of an element undoes its start.
* `run_scopes`: a page leaves the scopes as it found them.
* `extract_scoped`: what is hidden, or outside of the content, does not reach the Markdown.
-/

namespace PageSpeed.Markdown

open Wire Run Markdown.Filter

/-! ## The counters alone -/

/-- The counters of the filter, apart from its buffers. -/
structure Scopes where
  hard : ℕ := 0
  soft : ℕ := 0
  time : ℕ := 0
  root : ℕ := 0
  article : ℕ := 0
  anchor : ℕ := 0
  quote : ℕ := 0
  pre : ℕ := 0
  code : Bool := false
  deriving DecidableEq

open Scopes

/-- The counters of a state. -/
def Filter.scopes (s : Filter) : Scopes :=
  ⟨s.hardSkipDepth, s.softSkipDepth, s.timeDepth, s.contentRootDepth, s.articleDepth, s.anchorDepth,
    s.blockquoteDepth, s.preDepth, s.inInlineCode⟩

namespace Scopes

variable (x : Config) (c : Scopes) (e : Element)

/-- `Filter.skipping` on the counters. -/
def skipping : Bool := c.hard > 0 ∨ c.soft > 0 ∨ c.time > 0

/-- `Filter.outsideContentRoot` on the counters. -/
def outside : Bool := x.contentRootOnly ∧ c.root = 0

/-- `Filter.inAnchorBlock` on the counters. -/
def inAnchor : Bool := c.anchor > 0 ∧ c.pre = 0

/-- `Filter.openScopes` on the counters. -/
def openRoots : Scopes :=
  { c with
    root := if e.isContentRoot then c.root + 1 else c.root
    article := if e.isArticleRoot then c.article + 1 else c.article }

/-- `Filter.closeScopes` on the counters. -/
def closeRoots : Scopes :=
  { c with
    root := if e.isContentRoot then c.root - 1 else c.root
    article := if e.isArticleRoot then c.article - 1 else c.article }

/-- What a start tag that is not skipped opens. -/
def startTag : Scopes :=
  match e.tag with
  | .blockquote => { c with quote := c.quote + 1 }
  | .pre => { c with pre := c.pre + 1 }
  | .code => if c.pre = 0 then { c with code := true } else c
  | .a => if c.pre = 0 then { c with anchor := c.anchor + 1 } else c
  | _ => c

/-- What its end tag closes. -/
def endTag : Scopes :=
  match e.tag with
  | .blockquote => { c with quote := c.quote - 1 }
  | .pre => { c with pre := c.pre - 1 }
  | .a => if c.pre = 0 then { c with anchor := c.anchor - 1 } else c
  | _ => c

/-- What the start of an element does. -/
def start : Scopes :=
  if c.skipping then
    if e.isHardStrip then { c with hard := c.hard + 1 }
    else if e.tag = .time then { c with time := c.time + 1 }
    else if x.stripSoftChrome ∧ e.isSoftStripKeyword then { c with soft := c.soft + 1 }
    else c
  else if c.code then c
  else if e.isHardStrip then { c with hard := c.hard + 1 }
  else if x.stripSoftChrome ∧ e.isSoftStripKeyword ∧
      ¬ (c.article > 0 ∧ (e.tag = .header ∨ e.tag = .footer)) then
    { c with soft := c.soft + 1 }
  else
    let c := c.openRoots e
    if e.tag = .time then { c with time := c.time + 1 }
    else if c.outside x then c
    else if c.inAnchor ∧ (e.isBlockKeyword ∨ e.tag = .summary) then c
    else c.startTag e

/-- What its end does. -/
def finish : Scopes :=
  if c.skipping then
    if e.isHardStrip then { c with hard := c.hard - 1 }
    else if e.tag = .time then { c with time := c.time - 1 }
    else if x.stripSoftChrome ∧ e.isSoftStripKeyword then { c with soft := c.soft - 1 }
    else c
  else if c.code then if e.tag = .code ∧ c.pre = 0 then { c with code := false } else c
  else if c.outside x then c.closeRoots e
  else if c.inAnchor ∧ (e.isBlockKeyword ∨ e.tag = .summary) then c.closeRoots e
  else if e.tag = .summary then c
  else (c.endTag e).closeRoots e

end Scopes

/-! ## The filter runs the counters -/

variable {c : Scopes}

namespace Filter

variable (x : Config) (s : Filter) (e : Element)

/-- Only the text in work differs. -/
def Buffers (s t : Filter) : Prop :=
  ∃ cur cell codeBuf truncated, t = { s with cur, cell, codeBuf, truncated }

theorem Buffers.refl : Buffers s s := ⟨_, _, _, _, rfl⟩

/-- Changes of the buffers do not touch the counters. -/
theorem Buffers.scopes {s t : Filter} (h : Buffers s t) : t.scopes = s.scopes := by
  obtain ⟨_, _, _, _, rfl⟩ := h
  rfl

theorem buffers_setOut (t : Text) : Buffers s (s.setOut t) := by
  unfold setOut
  split_ifs
  · exact ⟨s.cur, t, s.codeBuf, s.truncated, rfl⟩
  · exact ⟨t, s.cell, s.codeBuf, s.truncated, rfl⟩

theorem buffers_put (t : Text) : Buffers s (s.put t) := buffers_setOut s _

theorem buffers_putInline (t : Bytes) : Buffers s (s.putInline t) := by
  unfold putInline
  split_ifs
  · exact buffers_put ..
  · exact Buffers.refl s

theorem buffers_putImage : Buffers s (s.putImage e) := by
  unfold putImage
  simp only
  split_ifs
  · exact Buffers.refl s
  · exact Buffers.refl s
  · exact buffers_put ..

theorem buffers_anchorBlockJoin : Buffers s s.anchorBlockJoin := by
  unfold anchorBlockJoin
  simp only
  split_ifs
  · exact Buffers.refl s
  · exact Buffers.refl s
  · exact buffers_put ..

theorem buffers_listItemBlockJoin : Buffers s s.listItemBlockJoin := by
  unfold listItemBlockJoin
  simp only
  split_ifs <;> exact buffers_setOut ..

theorem Buffers.truncate {s t : Filter} (h : Buffers s t) (truncated : Bool) :
    Buffers s { t with truncated } := by
  obtain ⟨cur, cell, codeBuf, _, rfl⟩ := h
  exact ⟨cur, cell, codeBuf, truncated, rfl⟩

/-- Text only goes to the buffers. -/
theorem buffers_appendText (t : Bytes) : Buffers s (s.appendText x t) := by
  unfold appendText
  simp only
  split_ifs
  · exact (Buffers.refl s).truncate true
  · exact Buffers.refl s
  · exact (Buffers.refl s).truncate true
  · exact (buffers_setOut ..).truncate true
  · exact buffers_setOut ..
  · exact (buffers_setOut ..).truncate true
  · exact buffers_setOut ..

/-- So does an event with text. -/
theorem buffers_characters (t : Bytes) : Buffers s (s.characters x t) := by
  unfold characters
  simp only
  split_ifs
  · exact Buffers.refl s
  · exact (Buffers.refl s).truncate true
  · exact Buffers.refl s
  · exact (Buffers.refl s).truncate true
  · exact ⟨_, _, _, _, rfl⟩
  · exact ⟨_, _, _, _, rfl⟩
  · exact buffers_appendText ..

theorem scopes_appendBlock (t : Text) : (s.appendBlock t).scopes = s.scopes := by
  unfold appendBlock
  split_ifs <;> rfl

theorem scopes_appendListItem (t : Text) : (s.appendListItem t).scopes = s.scopes := by
  unfold appendListItem
  split_ifs <;> rfl

/-- Nor does a block that goes out. -/
theorem scopes_flushBlock : s.flushBlock.scopes = s.scopes := by
  unfold flushBlock
  simp only
  split
  · rfl
  · split
    · exact scopes_appendBlock ..
    · split
      · exact scopes_appendListItem ..
      · split_ifs <;> exact scopes_appendBlock ..

theorem skipping_scopes : s.scopes.skipping = s.skipping := rfl

theorem openPre_scopes : (s.openPre e).scopes = { s.scopes with pre := s.preDepth + 1 } := by
  change { s.flushBlock.scopes with pre := s.flushBlock.scopes.pre + 1 } = _
  rw [scopes_flushBlock]
  rfl

theorem openAnchor_scopes : s.openAnchor.scopes = if s.preDepth = 0 then
    { s.scopes with anchor := s.anchorDepth + 1 } else s.scopes := by
  unfold openAnchor
  split_ifs
  · change { (s.put (mark .inline (lit "["))).scopes with anchor :=
               (s.put (mark .inline (lit "["))).scopes.anchor + 1 } = _
    rw [(s.buffers_put _).scopes]
    rfl
  · rfl

theorem openCode_scopes : (s.openCode e).scopes = if s.preDepth = 0 then
    { s.scopes with code := true } else s.scopes := by
  unfold openCode
  split_ifs <;> rfl

/-- A start tag, on the counters. -/
theorem startTag_scopes : (s.startTag e).scopes = s.scopes.startTag e := by
  have hflush := s.scopes_flushBlock
  unfold startTag Scopes.startTag
  cases e.tag
  case blockquote =>
    change { s.flushBlock.scopes with quote := s.blockquoteDepth + 1 } = _
    rw [hflush]
    rfl
  case pre => exact s.openPre_scopes e
  case code => exact s.openCode_scopes e
  case a => exact s.openAnchor_scopes
  case hr => exact (s.flushBlock.scopes_appendBlock _).trans hflush
  case img => exact (s.buffers_putImage e).scopes
  case br | strong | b | em | i => exact (s.buffers_putInline _).scopes
  all_goals first
    | exact hflush
    | rfl

theorem closePre_scopes : s.closePre.scopes = { s.scopes with pre := s.preDepth - 1 } := by
  unfold closePre
  simp only
  split_ifs
  all_goals first
    | rfl
    | exact scopes_appendBlock ..

theorem closeAnchor_scopes :
    (s.closeAnchor e).scopes = if s.preDepth = 0 then { s.scopes with anchor := s.anchorDepth - 1 }
      else s.scopes := by
  unfold closeAnchor
  split_ifs
  · exact (buffers_put _ _).scopes
  · rfl

theorem closeRow_scopes : s.closeRow.scopes = s.scopes := by
  unfold closeRow
  split_ifs <;> rfl

theorem closeTable_scopes : s.closeTable.scopes = s.scopes := by
  unfold closeTable
  simp only
  split_ifs
  · rfl
  · exact scopes_appendBlock ..

/-- An end tag, on the counters. -/
theorem endTag_scopes : (s.endTag e).scopes = s.scopes.endTag e := by
  have hflush := s.scopes_flushBlock
  unfold endTag Scopes.endTag
  cases e.tag
  case blockquote =>
    change { s.flushBlock.scopes with quote := s.blockquoteDepth - 1 } = _
    rw [hflush]
    rfl
  case pre => exact s.closePre_scopes
  case a => exact s.closeAnchor_scopes e
  case tr => exact s.closeRow_scopes
  case table => exact s.closeTable_scopes
  case strong | b | em | i => exact (s.buffers_putInline _).scopes
  all_goals first
    | exact hflush
    | rfl

/-- A folded element has no counter of its own. -/
theorem startTag_of_fold (h : e.isListItemFoldKeyword) : c.startTag e = c ∧ c.endTag e = c := by
  unfold Element.isListItemFoldKeyword at h
  unfold Scopes.startTag Scopes.endTag
  cases htag : e.tag <;> simp [htag] at h ⊢

/-- The two sides branch together. -/
theorem scopes_ite {p q : Prop} [Decidable p] [Decidable q] {s t : Filter} {c d : Scopes}
    (h : p ↔ q) (hs : s.scopes = c)
    (ht : t.scopes = d) : (if p then s else t).scopes = if q then c else d := by
  by_cases hp : p
  · rw [if_pos hp, if_pos (h.1 hp), hs]
  · rw [if_neg hp, if_neg (h.not.1 hp), ht]

/-- **The filter runs the counters.** -/
theorem startElement_scopes : (s.startElement x e).scopes = s.scopes.start x e := by
  unfold startElement start
  refine scopes_ite Iff.rfl ?skipped
    (scopes_ite Iff.rfl rfl (scopes_ite Iff.rfl rfl (scopes_ite Iff.rfl rfl ?opened)))
  case skipped =>
    unfold startSkipped
    simp only
    split_ifs <;> rfl
  case opened =>
    refine scopes_ite Iff.rfl rfl
      (scopes_ite Iff.rfl rfl (scopes_ite Iff.rfl (buffers_anchorBlockJoin _).scopes ?_))
    by_cases hsum : e.tag = .summary
    · rw [if_pos hsum]
      refine (scopes_flushBlock _).trans ?_
      unfold Scopes.startTag
      rw [hsum]
      rfl
    · rw [if_neg hsum]
      split_ifs with hfold
      · rw [(startTag_of_fold e hfold.2).1]
        exact (buffers_listItemBlockJoin _).scopes
      · exact startTag_scopes _ e

theorem closeCode_scopes : s.closeCode.scopes = { s.scopes with code := false } := by
  unfold closeCode
  simp only
  change { (s.put _).scopes with code := false } = _
  rw [(s.buffers_put _).scopes]

theorem closeScopes_scopes : (s.closeScopes e).scopes = s.scopes.closeRoots e := rfl

/-- Every end tag, on the counters. -/
theorem endElement_scopes : (s.endElement x e).scopes = s.scopes.finish x e := by
  unfold endElement finish
  refine scopes_ite Iff.rfl ?skipped (scopes_ite Iff.rfl (scopes_ite Iff.rfl s.closeCode_scopes rfl)
    (scopes_ite Iff.rfl rfl (scopes_ite Iff.rfl rfl (scopes_ite Iff.rfl s.scopes_flushBlock ?_))))
  case skipped =>
    unfold endSkipped
    split_ifs <;> rfl
  split_ifs with hfold
  · rw [(startTag_of_fold e hfold.2).2]
    rfl
  · rw [closeScopes_scopes, endTag_scopes]

end Filter

/-! ## Balance -/

namespace Scopes

variable {x : Config} {c : Scopes} {e : Element}

/-- The element is of one kind: within a span of code no hidden element and no other span, and no
root of the content that is a span of code, a time, or a summary outside of an anchor. -/
def OneKind (c : Scopes) (e : Element) : Prop :=
  c.skipping = false →
    if c.code then e.isHardStrip = false ∧ e.tag ≠ .code
    else e.isHardStrip = false → e.isContentRoot → e.tag ≠ .time ∧ (e.tag = .code → c.pre ≠ 0) ∧
      (e.tag = .summary → c.inAnchor)

instance (c : Scopes) (e : Element) : Decidable (c.OneKind e) :=
  inferInstanceAs (Decidable (c.skipping = false →
    if c.code then e.isHardStrip = false ∧ e.tag ≠ .code
    else e.isHardStrip = false → e.isContentRoot → e.tag ≠ .time ∧ (e.tag = .code → c.pre ≠ 0) ∧
      (e.tag = .summary → c.inAnchor)))

/-- The end of an element undoes its start. -/
theorem closeRoots_openRoots (c : Scopes) (e : Element) : (c.openRoots e).closeRoots e = c := by
  unfold openRoots closeRoots
  cases e.isContentRoot <;> cases e.isArticleRoot <;> simp

theorem openRoots_eq (h : e.isContentRoot = false) : c.openRoots e = c := by
  have harticle : e.isArticleRoot = false := by
    unfold Element.isContentRoot at h
    unfold Element.isArticleRoot
    simp only [decide_eq_false_iff_not, not_or] at h ⊢
    exact ⟨h.2.1, h.2.2.2⟩
  unfold openRoots
  rw [h, harticle]
  rfl

/-- An end that is neither skipped nor within a span of code. -/
theorem finish_plain (hskip : c.skipping = false) (hcode : c.code = false) : c.finish x e =
    if c.outside x then c.closeRoots e
    else if c.inAnchor ∧ (e.isBlockKeyword ∨ e.tag = .summary) then c.closeRoots e
    else if e.tag = .summary then c
    else (c.endTag e).closeRoots e := by
  rw [finish, hskip, hcode]
  rfl

/-- A skipped start is undone: the kind of the element decides which counter it is, at both ends. -/
theorem finish_start_skipped (h : c.skipping) : (c.start x e).finish x e = c := by
  have hskip : c.hard > 0 ∨ c.soft > 0 ∨ c.time > 0 := of_decide_eq_true h
  unfold start
  rw [if_pos h]
  split_ifs with hhard htime hsoft
  · rw [finish, if_pos (by simp [skipping]), if_pos hhard]
    rfl
  · rw [finish, if_pos (by simp [skipping]), if_neg hhard, if_pos htime]
    rfl
  · rw [finish, if_pos (by simp [skipping]), if_neg hhard, if_neg htime, if_pos hsoft]
    rfl
  · rw [finish, if_pos h, if_neg hhard, if_neg htime, if_neg hsoft]

/-- What the switch at the start leaves alone. -/
theorem startTag_frame (hspan : ¬ (e.tag = .code ∧ c.pre = 0)) :
    (c.startTag e).skipping = c.skipping ∧ (c.startTag e).code = c.code ∧
    (c.startTag e).outside x = c.outside x ∧
    ((c.startTag e).inAnchor ∧ (e.isBlockKeyword ∨ e.tag = .summary) → c.inAnchor ∧
      (e.isBlockKeyword ∨ e.tag = .summary)) ∧ (c.startTag e).endTag e = c := by
  unfold startTag endTag
  cases htag : e.tag
  case code =>
    have hpre : c.pre ≠ 0 := fun hpre => hspan ⟨htag, hpre⟩
    have hs : (if c.pre = 0 then { c with code := true } else c) = c := if_neg hpre
    rw [hs]
    exact ⟨rfl, rfl, rfl, id, rfl⟩
  case a =>
    by_cases hpre : c.pre = 0
    · have hs : (if c.pre = 0 then { c with anchor := c.anchor + 1 } else c) =
          { c with anchor := c.anchor + 1 } := if_pos hpre
      rw [hs]
      exact ⟨rfl, rfl, rfl, by simp [Element.isBlockKeyword, htag], if_pos hpre⟩
    · have hs : (if c.pre = 0 then { c with anchor := c.anchor + 1 } else c) = c := if_neg hpre
      rw [hs]
      exact ⟨rfl, rfl, rfl, id, if_neg hpre⟩
  case pre => exact ⟨rfl, rfl, rfl, by simp [inAnchor], rfl⟩
  all_goals exact ⟨rfl, rfl, rfl, id, rfl⟩

/-- The rest of a start, where nothing is skipped, and its end. -/
theorem finish_opened (hskip : c.skipping = false) (hcode : c.code = false)
    (hhard : e.isHardStrip = false)
    (hroot : e.isContentRoot → e.tag ≠ .time ∧ (e.tag = .code → c.pre ≠ 0) ∧
      (e.tag = .summary → c.inAnchor)) :
    (let o := c.openRoots e
      if e.tag = .time then { o with time := o.time + 1 }
      else if o.outside x then o
      else if o.inAnchor ∧ (e.isBlockKeyword ∨ e.tag = .summary) then o
      else o.startTag e).finish x e = c := by
  have hback : (c.openRoots e).closeRoots e = c := closeRoots_openRoots c e
  have hsame : e.isContentRoot = false → c.openRoots e = c := openRoots_eq
  have hplain := finish_plain (x := x) (e := e) (c := c.openRoots e) hskip hcode
  simp only
  -- the four ways a start tag goes, each undone by the end tag of the same element
  split_ifs with htime hout hanchor
  · have hno : e.isContentRoot = false := by
      by_contra h
      exact (hroot (Bool.eq_true_of_not_eq_false h)).1 htime
    rw [hsame hno, finish, if_pos (by simp [skipping]), hhard, if_neg Bool.false_ne_true,
      if_pos htime]
    rfl
  · rw [hplain, if_pos hout, hback]
  · rw [hplain, if_neg hout, if_pos hanchor, hback]
  · by_cases hspan : e.tag = .code ∧ (c.openRoots e).pre = 0
    · have hno : e.isContentRoot = false := by
        by_contra h
        exact (hroot (Bool.eq_true_of_not_eq_false h)).2.1 hspan.1 hspan.2
      rw [hsame hno] at hspan ⊢
      have hstart : c.startTag e = { c with code := true } := by
        simp only [startTag, hspan.1]
        exact if_pos hspan.2
      have hskip' : ({ c with code := true } : Scopes).skipping = false := hskip
      rw [hstart, finish, hskip', if_neg Bool.false_ne_true, if_pos rfl, if_pos hspan]
      cases c
      exact congrArg _ hcode.symm
    · obtain ⟨hskip', hcode', hout', hanchor', hend⟩ := startTag_frame (x := x) hspan
      rw [finish_plain (hskip'.trans hskip) (hcode'.trans hcode), hout', if_neg hout,
        if_neg fun h => hanchor (hanchor' h), hend, hback]
      split_ifs with hsum
      · have hno : e.isContentRoot = false := by
          by_contra h
          exact hanchor ⟨(hroot (Bool.eq_true_of_not_eq_false h)).2.2 hsum, Or.inr hsum⟩
        rw [hsame hno]
        simp [startTag, hsum]
      · rfl

/-- **The end of an element undoes its start.** -/
theorem finish_start (h : c.OneKind e) : (c.start x e).finish x e = c := by
  by_cases hskip : c.skipping
  · exact finish_start_skipped hskip
  have hskip' : c.skipping = false := Bool.eq_false_of_not_eq_true hskip
  have hkind := h hskip'
  rw [start, if_neg hskip]
  by_cases hcode : c.code
  · rw [if_pos hcode] at hkind
    rw [if_pos hcode, finish, if_neg hskip, if_pos hcode, if_neg fun hspan => hkind.2 hspan.1]
  rw [if_neg hcode] at hkind
  rw [if_neg hcode]
  by_cases hhard : e.isHardStrip
  · rw [if_pos hhard, finish, if_pos (by simp [skipping]), if_pos hhard]
    rfl
  rw [if_neg hhard]
  by_cases hsoft : x.stripSoftChrome ∧ e.isSoftStripKeyword ∧
    ¬ (c.article > 0 ∧ (e.tag = .header ∨ e.tag = .footer))
  · have htime : e.tag ≠ .time := by
      rintro htime
      simp [Element.isSoftStripKeyword, htime] at hsoft
    rw [if_pos hsoft, finish, if_pos (by simp [skipping]), if_neg hhard, if_neg htime,
      if_pos ⟨hsoft.1, hsoft.2.1⟩]
    rfl
  · rw [if_neg hsoft]
    have hhard' : e.isHardStrip = false := Bool.eq_false_of_not_eq_true hhard
    exact finish_opened hskip' (Bool.eq_false_of_not_eq_true hcode) hhard' (hkind hhard')

end Scopes

/-! ## Pages -/

/-- The condition on an event, in the state it finds: an element that starts is of one kind. -/
def Scoped (s : Filter) : Event → Prop
  | .startElement e => s.scopes.OneKind e
  | _ => True

instance (s : Filter) : (event : Event) → Decidable (Scoped s event)
  | .startElement e => inferInstanceAs (Decidable (s.scopes.OneKind e))
  | .endElement _ => isTrue trivial
  | .characters _ => isTrue trivial

variable {x : Config} {s : Filter} {e : Element} {children rest : Forest}

namespace Filter

/-- The events of an element: its start, its children, its end. -/
theorem run_element : s.run x (Forest.element e children rest).events =
    (((s.startElement x e).run x children.events).endElement x e).run x rest.events := by
  simp only [run, Forest.events, List.foldl_cons, List.foldl_append]
  rfl

theorem run_characters (contents : Bytes) :
    s.run x (Forest.characters contents rest).events =
      (s.characters x contents).run x rest.events := rfl

end Filter

/-- A scoped run of an element is scoped in its parts. -/
theorem along_element (h : Along (Filter.step x) Scoped s (Forest.element e children rest).events) :
    s.scopes.OneKind e ∧ Along (Filter.step x) Scoped (s.startElement x e) children.events ∧
      Along (Filter.step x) Scoped (((s.startElement x e).run x children.events).endElement x e)
        rest.events := by
  obtain ⟨hkind, h⟩ := h
  obtain ⟨hchildren, -, hrest⟩ := along_append.1 h
  exact ⟨hkind, hchildren, hrest⟩

/-- **A page leaves the scopes as it found them.** -/
theorem run_scopes (page : Forest) (h : Along (Filter.step x) Scoped s page.events) :
    (s.run x page.events).scopes = s.scopes := by
  induction page generalizing s with
  | nil => rfl
  | characters contents rest ih =>
    rw [run_characters]
    exact (ih h.2).trans ((s.buffers_characters x contents).scopes)
  | element e children rest ihc ihr =>
    obtain ⟨hkind, hchildren, hrest⟩ := along_element h
    rw [run_element, ihr hrest, endElement_scopes, ihc hchildren, startElement_scopes]
    exact finish_start hkind

/-- Behind an element the scopes are as before it. -/
theorem element_scopes (hkind : s.scopes.OneKind e)
    (hchildren : Along (Filter.step x) Scoped (s.startElement x e) children.events) :
    (((s.startElement x e).run x children.events).endElement x e).scopes = s.scopes := by
  rw [endElement_scopes, run_scopes children hchildren, startElement_scopes]
  exact finish_start hkind

/-! ## Hidden text -/

/-- The page without the text that is below a hidden element. -/
def Forest.blankHidden (below : Bool) : Forest → Forest
  | .nil => .nil
  | .element e children rest =>
    .element e (children.blankHidden (below || e.isHardStrip)) (rest.blankHidden below)
  | .characters contents rest =>
    .characters (if below then [] else contents) (rest.blankHidden below)

/-- Below a hidden element all is skipped. -/
theorem start_skipping (hkind : c.OneKind e) (h : c.skipping ∨ e.isHardStrip) :
    (c.start x e).skipping := by
  by_cases hskip : c.skipping
  · have hpos : c.hard > 0 ∨ c.soft > 0 ∨ c.time > 0 := of_decide_eq_true hskip
    unfold start
    rw [if_pos hskip]
    split_ifs
    all_goals first
      | exact hskip
      | simp [Scopes.skipping]
  · have hhard := h.resolve_left hskip
    have hkind' := hkind (Bool.eq_false_of_not_eq_true hskip)
    have hcode : ¬ c.code := by
      intro hcode
      rw [if_pos hcode, hhard] at hkind'
      exact absurd hkind'.1 (by decide)
    unfold start
    rw [if_neg hskip, if_neg hcode, if_pos hhard]
    simp [Scopes.skipping]

/-- What is hidden makes no difference. -/
theorem run_blankHidden (page : Forest) (below : Bool)
    (h : Along (Filter.step x) Scoped s page.events)
    (hbelow : below → s.skipping) : s.run x (page.blankHidden below).events =
      s.run x page.events := by
  induction page generalizing s below with
  | nil => rfl
  | characters contents rest ih =>
    have hsame : s.characters x (if below then [] else contents) = s.characters x contents := by
      cases below with
      | false => rfl
      | true => rw [Filter.characters, Filter.characters, if_pos (hbelow rfl), if_pos (hbelow rfl)]
    rw [Forest.blankHidden, run_characters, run_characters, hsame]
    refine ih below h.2 fun hb => ?_
    rw [← skipping_scopes, (buffers_characters x s contents).scopes, skipping_scopes]
    exact hbelow hb
  | element e children rest ihc ihr =>
    obtain ⟨hkind, hchildren, hrest⟩ := along_element h
    have hstart : (below || e.isHardStrip) → (s.startElement x e).skipping := by
      intro hb
      rw [← skipping_scopes, startElement_scopes]
      exact start_skipping hkind ((Bool.or_eq_true _ _ ▸ hb).imp_left hbelow)
    rw [Forest.blankHidden, run_element, run_element, ihc _ hchildren hstart]
    refine ihr below hrest fun hb => ?_
    rw [← skipping_scopes, element_scopes hkind hchildren]
    exact hbelow hb

/-! ## Text outside of the content -/

/-- The page without the text that is outside of every root of the content. -/
def Forest.blankOutside : Forest → Forest
  | .nil => .nil
  | .element e children rest =>
    .element e (if e.isContentRoot then children else children.blankOutside) rest.blankOutside
  | .characters _ rest => .characters [] rest.blankOutside

theorem start_root (hroot : e.isContentRoot = false) : (c.start x e).root = c.root := by
  unfold start
  simp only [openRoots_eq hroot]
  split_ifs
  all_goals try rfl
  unfold Scopes.startTag
  cases e.tag
  all_goals first
    | rfl
    | (simp only; split_ifs <;> rfl)

/-- What is outside of the content makes no difference. -/
theorem run_blankOutside (hx : x.contentRootOnly) (page : Forest)
    (h : Along (Filter.step x) Scoped s page.events)
    (hroot : s.contentRootDepth = 0) : s.run x page.blankOutside.events = s.run x page.events := by
  induction page generalizing s with
  | nil => rfl
  | characters contents rest ih =>
    have hout : s.outsideContentRoot x := decide_eq_true ⟨hx, hroot⟩
    -- outside a root the contents are not looked at
    have hsame (t : Bytes) : s.characters x t = if s.skipping then s else if s.atOutputCap then
        { s with truncated := true } else s := by
      unfold Filter.characters
      simp only [hout, if_true]
    rw [Forest.blankOutside, run_characters, run_characters, hsame, ← hsame contents]
    refine ih h.2 ?_
    exact (congrArg root ((s.buffers_characters x contents).scopes)).trans hroot
  | element e children rest ihc ihr =>
    obtain ⟨hkind, hchildren, hrest⟩ := along_element h
    have hend : (((s.startElement x e).run x children.events).endElement x e).contentRootDepth =
        0 :=
      (congrArg root (element_scopes hkind hchildren)).trans hroot
    have hsame : (s.startElement x e).run x
      (if e.isContentRoot then children else children.blankOutside).events =
        (s.startElement x e).run x children.events := by
      split_ifs with hr
      · rfl
      · -- an element that is no root leaves the depth at 0 for its children
        have hdepth : (s.startElement x e).contentRootDepth = s.contentRootDepth :=
          (congrArg root (s.startElement_scopes x e)).trans
            (start_root (Bool.eq_false_of_not_eq_true hr))
        exact ihc hchildren (hdepth.trans hroot)
    rw [Forest.blankOutside, run_element, run_element, hsame]
    exact ihr hrest hend

/-! ## The whole page -/

/-- The end of the document, on the counters. -/
theorem scopes_endDocument (x : Config) (s : Filter) : (s.endDocument x).scopes = s.scopes := by
  unfold Filter.endDocument
  simp only
  split_ifs <;> exact s.scopes_flushBlock

/-- **Hidden text does not reach the Markdown, and scopes balance.** In a run in which every element
that starts is of one kind in the state it finds, all counters are back at zero at the end of the
document, the Markdown is that of the page without its hidden text, and if only the content is asked
for, that of the page without the text outside of it. -/
theorem extract_scoped (x : Config) (page : Forest)
    (h : Along (Filter.step x) Scoped {} page.events) :
    (extract x page).scopes = {} ∧ extract x (page.blankHidden false) = extract x page ∧
      (x.contentRootOnly → extract x page.blankOutside = extract x page) := by
  refine ⟨?_, ?_, fun hx => ?_⟩
  · rw [extract, scopes_endDocument, run_scopes page h]
    rfl
  · rw [extract, extract, run_blankHidden page false h (by simp)]
  · rw [extract, extract, run_blankOutside hx page h rfl]

/-- A paragraph with a hidden part and a span of code, and then the content. -/
def scopedPage : Forest :=
  .element { tag := .p }
    (.characters (lit "a") (.element { tag := .other, hidden := true }
      (.element { tag := .code } (.characters (lit "x") .nil) .nil)
      (.element { tag := .code } (.characters (lit "b") .nil) .nil)))
    (.element { tag := .main } (.element { tag := .blockquote }
      (.characters (lit "c") .nil) .nil) .nil)

theorem extract_scoped_page : (extract { contentRootOnly := true } scopedPage).scopes = {} ∧
    extract { contentRootOnly := true } scopedPage.blankOutside =
      extract { contentRootOnly := true } scopedPage ∧
    bytesOf (extract { contentRootOnly := true } scopedPage).markdown = lit "> c" := by
  obtain ⟨hscopes, -, hout⟩ :=
    extract_scoped { contentRootOnly := true } scopedPage (by decide +kernel)
  exact ⟨hscopes, hout rfl, by decide +kernel⟩

/-- An element that is a root of the content by its role, and a paragraph behind it. -/
def rootThenText (tag : Tag) : Forest :=
  .element { tag, role := some (lit "main") } .nil
    (.element { tag := .p } (.characters (lit "y") .nil) .nil)

/-- **Elements of two kinds at once.** A script in a span of code is text. A root of the content
that is a time, a span of code or a summary stays open, and what follows it counts as content. A
span in a span makes the end of the roots between them count twice, and the quote around them stays
open. -/
theorem not_extract_scoped :
    (bytesOf (extract {} (.element { tag := .code }
        (.element { tag := .script } (.characters (lit "x") .nil) .nil) .nil)).markdown =
      lit "\x60x\x60") ∧
    (∀ tag ∈ [Tag.time, .code, .summary],
      (extract { contentRootOnly := true } (rootThenText tag)).contentRootDepth = 1 ∧
        ch 'y' ∈ bytesOf (extract { contentRootOnly := true } (rootThenText tag)).markdown) ∧
    (extract { contentRootOnly := true }
      (.element { tag := .main } (.element { tag := .blockquote }
        (.element { tag := .code } (.element { tag := .main }
        (.element { tag := .code } .nil .nil) .nil) .nil) .nil) .nil)).blockquoteDepth = 1 := by
  decide +kernel

end PageSpeed.Markdown
