import PageSpeed.Spec.HtmlTransform

/-!
# What the steps of a pass do to its state

* `stripInjected`: the document without what an earlier pass injected.
* `queue_emit` and the like: how each operation changes the queue.
* `mode_startElement`, `mode_endElement`: how the tags change the rest that later steps read.
-/

namespace PageSpeed.Html

open Wire AttributeList Transform

/-! ## Documents -/

/-- A document without the nodes an earlier pass injected; `n` elements of such a node are open. -/
def stripInjected : ℕ → List HtmlEvent → List HtmlEvent
  | _, [] => []
  | 0, .startElement e :: events =>
    if isInjectedNode e then stripInjected 1 events else .startElement e :: stripInjected 0 events
  | 0, event :: events => event :: stripInjected 0 events
  | n + 1, .startElement _ :: events => stripInjected (n + 2) events
  | n + 1, .endElement _ :: events => stripInjected n events
  | n + 1, .leaf _ :: events => stripInjected (n + 1) events

/-- The element of a start tag. -/
def startedElement : HtmlEvent → Option Element
  | .startElement e => some e
  | _ => none

/-- The elements of a document in the order of their start tags. -/
def elements (events : List HtmlEvent) : List Element := events.filterMap startedElement

/-- An event of a node that is being deleted leaves nothing. -/
def isDropped (s : Transform) (event : HtmlEvent) : Bool :=
  s.deleting ≠ 0 || (startedElement event).any isInjectedNode

/-! ## The queue -/

namespace Transform

variable {inp : TransformInputs} {s : Transform} {e : Element} {n : HtmlName} {xs : List Queued}
  {style : CloseStyle}

@[simp] theorem queue_emit : (s.emit xs).queue = s.queue ++ xs := by
  rw [emit]
  split
  · next h => simp [queue, h]
  · next q h => simp [queue, h]

@[simp] theorem criticalCssInjected_emit :
    (s.emit xs).criticalCssInjected = s.criticalCssInjected := by
  rw [emit]
  split <;> rfl

theorem queue_setAnchor (h : s.fromAnchor.isSome = false) : s.setAnchor.queue = s.queue := by
  rw [Option.isSome_eq_false_iff, Option.isNone_iff_eq_none] at h
  simp [queue, setAnchor, h]

@[simp] theorem queue_clearAnchor : s.clearAnchor.queue = s.queue := by simp [clearAnchor, queue]

/-- The anchor is a place in the queue; nothing moves. -/
theorem queue_trackCriticalCssAnchor : (s.trackCriticalCssAnchor e).queue = s.queue := by
  rw [trackCriticalCssAnchor]
  split_ifs with hinj hprelude hanchor hsource
  · rfl
  · exact queue_clearAnchor
  · rfl
  · exact queue_setAnchor (by simpa using hanchor)
  · rfl

theorem criticalCssInjected_trackCriticalCssAnchor :
    (s.trackCriticalCssAnchor e).criticalCssInjected = s.criticalCssInjected := by
  rw [trackCriticalCssAnchor]
  split_ifs <;> rfl

/-- What a start tag does to the queue before its own node: a frameset takes the block out. -/
theorem noteElement_cases :
    ((s.noteElement e).queue = s.queue ∧ (s.noteElement e).criticalCssInjected =
      s.criticalCssInjected) ∨
      ((s.noteElement e).queue = s.queue.filter (·.held ≠ .injectedCriticalStyle) ∧
        (s.noteElement e).criticalCssInjected = false) := by
  have hpic : ∀ t : Transform, (t.notePicture e).queue = t.queue ∧
      (t.notePicture e).criticalCssInjected = t.criticalCssInjected := by
    intro t
    rw [notePicture]
    split_ifs <;> exact ⟨rfl, rfl⟩
  have hmode : ∀ t : Transform, ((t.noteDocumentMode e).queue = t.queue ∧
      (t.noteDocumentMode e).criticalCssInjected = t.criticalCssInjected) ∨
      ((t.noteDocumentMode e).queue = t.queue.filter (·.held ≠ .injectedCriticalStyle) ∧
        (t.noteDocumentMode e).criticalCssInjected = false) := by
    intro t
    rw [noteDocumentMode, takeBackBlock]
    split_ifs
    · exact .inl ⟨rfl, rfl⟩
    · refine .inr ⟨?_, rfl⟩
      cases h : t.fromAnchor <;> simp [queue, mapQueue, h]
    · exact .inl ⟨rfl, rfl⟩
    · exact .inl ⟨rfl, rfl⟩
  rcases hmode (s.noteSelect e) with ⟨hq, hi⟩ | ⟨hq, hi⟩
  · exact .inl ⟨(hpic _).1.trans hq, (hpic _).2.trans hi⟩
  · exact .inr ⟨(hpic _).1.trans hq, (hpic _).2.trans hi⟩

/-- A rewrite in place counts images and frames and changes nothing else of the state. -/
def Counted (s t : Transform) : Prop :=
  ∃ m n b, t = { s with bodyImgCount := m, bodyIframeCount := n, fallbackPriorityApplied := b }

theorem Counted.refl (s : Transform) : Counted s s := ⟨_, _, _, rfl⟩

/-- Lazy loading only counts. -/
theorem counted_applyLazyLoad (b : Bool) (as : AttributeList) :
    Counted s (applyLazyLoad inp s b as).1 := by
  rw [applyLazyLoad, lazyLoadBodyImg, lazyLoadBodyIframe]
  split_ifs <;> exact ⟨_, _, _, rfl⟩

theorem counted_rewriteFrame (b : Bool) (as : AttributeList) :
    Counted s (rewriteFrame inp s b as).1 := by
  rw [rewriteFrame]
  split_ifs
  · exact counted_applyLazyLoad b as
  · exact Counted.refl s
  · exact counted_applyLazyLoad b as
  · exact Counted.refl s

/-- Rewriting an element only counts. -/
theorem counted_rewriteElement (inp : TransformInputs) (s : Transform) (e : Element) :
    Counted s (s.rewriteElement inp e).1 := by
  rw [rewriteElement]
  split
  · exact Counted.refl s
  · exact counted_rewriteFrame true e.attributes
  · exact counted_rewriteFrame false e.attributes
  · exact Counted.refl s

/-! ## The mode -/

/-- The part of the state that no operation on the queue touches. -/
structure Mode where
  deleting : ℕ
  inSelect : Bool
  sticky : Bool
  names : List HtmlName

/-- The part of the state that decides how an event is taken. -/
def mode (s : Transform) : Mode := ⟨s.deleting, s.inSelect, s.selectSticky, s.openElements⟩

@[simp] theorem mode_emit : (s.emit xs).mode = s.mode := by
  rw [emit]
  split <;> rfl

/-- What is noted of a start tag besides "in select" mode. -/
def noteRest (s : Transform) (e : Element) : Transform :=
  { (s.noteDocumentMode e).notePicture e with
    inBody := s.inBody || (e.keyword = .kBody : Bool)
    metaCsps := s.metaCsps ++ metaCsp e }

theorem noteElement_eq : s.noteElement e = (s.noteSelect e).noteRest e := rfl

/-- What is noted of an element decides nothing about the next event. -/
theorem mode_noteRest : (s.noteRest e).mode = s.mode := by
  rw [noteRest, notePicture, noteDocumentMode, takeBackBlock]
  split_ifs <;> rfl

theorem mode_trackCriticalCssAnchor : (s.trackCriticalCssAnchor e).mode = s.mode := by
  rw [trackCriticalCssAnchor]
  split_ifs <;> rfl

/-- Nor does its output. -/
theorem mode_placeElement : (s.placeElement inp e).mode = s.mode := by
  rw [placeElement]
  split
  · exact mode_emit
  · obtain ⟨m, n, b, hs⟩ := counted_rewriteElement inp s e
    rw [mode_emit, hs]
    rfl

theorem mode_injectFontPreload : (s.injectFontPreload inp).mode = s.mode := by
  rw [injectFontPreload]
  split_ifs
  · exact mode_emit
  · rfl

theorem mode_injectPreconnectLinks : (s.injectPreconnectLinks inp).mode = s.mode := by
  rw [injectPreconnectLinks]
  split_ifs
  · exact mode_emit
  · rfl

theorem mode_injectLcpPreload : (s.injectLcpPreload inp).mode = s.mode := by
  rw [injectLcpPreload]
  split_ifs
  · exact mode_emit
  · rfl

theorem mode_injectSpeculationRules : (s.injectSpeculationRules inp).mode = s.mode := by
  rw [injectSpeculationRules]
  split_ifs
  · exact mode_emit
  · rfl

theorem mode_injectCriticalCss : (s.injectCriticalCss inp n).mode = s.mode := by
  rw [injectCriticalCss]
  split
  · rfl
  · split
    · rfl
    · split
      · rfl
      · rw [putBlock]
        split
        · rfl
        · exact mode_emit

/-- Nor does what an end tag injects. -/
theorem mode_closeElement : (s.closeElement inp n).mode = s.mode := by
  rw [closeElement]
  split
  · rw [endHead, mode_injectCriticalCss, mode_injectLcpPreload, mode_injectPreconnectLinks,
      mode_injectFontPreload]
  · change ((s.injectSpeculationRules inp).injectCriticalCss inp n).mode = s.mode
    rw [mode_injectCriticalCss, mode_injectSpeculationRules]
  · rfl

/-- A start tag as far as the mode goes. -/
def Mode.open (p : Mode) (n : HtmlName) : Mode :=
  { p with
    inSelect := p.inSelect || (n.keyword = .kSelect : Bool)
    sticky := p.sticky || (p.inSelect && ¬ isSelectContent n.keyword)
    names := n :: p.names }

theorem toHtmlName_cleanLink : (cleanLink e).toHtmlName = e.toHtmlName := by
  rw [cleanLink]
  split_ifs <;> rfl

theorem cleanLink_of_not_link (h : e.keyword ≠ .kLink) : cleanLink e = e := by
  rw [cleanLink, if_neg (by simp [h])]

/-- When a link is deferred, and to what. -/
theorem deferCss_spec {p : Bool} {as : AttributeList} {d : DeferredCss}
    (h : (if p then deferCss as else none) = some d) : p ∧ isDeferrable as ∧
      ⟨deferLink as, fallbackLink as⟩ = d := by
  obtain ⟨hp, h⟩ := Option.ite_none_right_eq_some.1 h
  obtain ⟨hdef, h⟩ := Option.ite_none_right_eq_some.1 h
  exact ⟨hp, hdef, Option.some.inj h⟩

@[simp] theorem keyword_cleanLink : (cleanLink e).keyword = e.keyword :=
  congrArg HtmlName.keyword toHtmlName_cleanLink

/-- A start tag opens its element, whatever is done with it. -/
theorem mode_startElement (inp : TransformInputs) (hinj : isInjectedNode e = false) :
    (s.startElement inp e).mode = s.mode.open e.toHtmlName := by
  have hmode : (((s.noteElement e).trackCriticalCssAnchor (cleanLink e)).placeElement inp
    (cleanLink e)).mode = (s.noteSelect e).mode := by
    rw [mode_placeElement, mode_trackCriticalCssAnchor, noteElement_eq, mode_noteRest]
  have hnames : ((s.noteElement e).trackCriticalCssAnchor (cleanLink e)).openElements =
      s.openElements := by
    have hnoted : ((s.noteElement e).trackCriticalCssAnchor (cleanLink e)).mode =
        (s.noteSelect e).mode := by
      rw [mode_trackCriticalCssAnchor, noteElement_eq, mode_noteRest]
    exact congrArg Mode.names hnoted
  simp only [mode, Mode.mk.injEq] at hmode
  obtain ⟨hdel, hin, hsticky, -⟩ := hmode
  rw [startElement, if_neg (by simp [hinj]), openElement]
  simp only [mode, Mode.open, Mode.mk.injEq]
  exact ⟨hdel, hin, hsticky, by rw [hnames, toHtmlName_cleanLink]⟩

/-- A start tag that starts a deletion. -/
theorem deleting_startElement : (s.startElement inp e).deleting = if isInjectedNode e then 1
    else s.deleting := by
  cases hinj : isInjectedNode e with
  | true => rw [startElement, if_pos hinj, if_pos rfl]
  | false =>
    rw [if_neg (by simp)]
    exact congrArg Mode.deleting (mode_startElement inp hinj)

/-- An end tag as far as the mode goes: `n` was the innermost open element. -/
theorem mode_endElement {ancestors : List HtmlName} (h : s.openElements = n :: ancestors) :
    (s.endElement inp style).mode =
      ({ s with openElements := ancestors }.noteSelectEnd n style).mode := by
  rw [endElement, h]
  exact mode_emit.trans mode_closeElement

theorem mode_endElement_nil (h : s.openElements = []) : (s.endElement inp style).mode = s.mode := by
  rw [endElement, h]
  exact mode_emit

theorem deleting_endElement (style : CloseStyle) :
    (s.endElement inp style).deleting = s.deleting := by
  cases h : s.openElements with
  | nil => exact congrArg Mode.deleting (mode_endElement_nil h)
  | cons n ancestors => exact congrArg Mode.deleting (mode_endElement h)

theorem deleting_emit : (s.emit xs).deleting = s.deleting := congrArg Mode.deleting mode_emit

/-- The open elements of the node that is being deleted, after one more event. -/
def deletingAfter : ℕ → HtmlEvent → ℕ
  | 0, .startElement e => if isInjectedNode e then 1 else 0
  | 0, .endElement _ => 0
  | 0, .leaf _ => 0
  | n + 1, .startElement _ => n + 2
  | n + 1, .endElement _ => n
  | n + 1, .leaf _ => n + 1

/-- Deletions depend on the events alone. -/
theorem deleting_step (inp : TransformInputs) (s : Transform) (event : HtmlEvent) :
    (step inp s event).deleting = deletingAfter s.deleting event := by
  cases hdel : s.deleting with
  | zero =>
    cases event with
    | startElement e =>
      rw [step, if_neg (by simp [hdel]), deleting_startElement, hdel, deletingAfter]
    | endElement style =>
      rw [step, if_neg (by simp [hdel]), deleting_endElement, hdel, deletingAfter]
    | leaf contents => rw [step, if_neg (by simp [hdel]), deleting_emit, hdel, deletingAfter]
  | succ n =>
    cases event with
    | startElement e => rw [step, if_pos (by simp [hdel]), hdel, deletingAfter]
    | endElement style =>
      rw [step, if_pos (by simp [hdel]), hdel, deletingAfter]
      rfl
    | leaf contents => rw [step, if_pos (by simp [hdel]), hdel, deletingAfter]

variable {event : HtmlEvent}

/-- One event of the document without injected nodes. -/
theorem stripInjected_cons (d : ℕ) (event : HtmlEvent) (events : List HtmlEvent) :
    stripInjected d (event :: events) =
    (if isDropped { deleting := d } event then [] else [event]) ++
      stripInjected (deletingAfter d event) events := by
  rw [isDropped]
  cases d <;> cases event <;> simp [stripInjected, deletingAfter, startedElement]
  split_ifs <;> rfl

/-- A step, and what is kept of its event. -/
theorem stripInjected_step (inp : TransformInputs) (s : Transform) (event : HtmlEvent)
    (events : List HtmlEvent) :
    stripInjected s.deleting (event :: events) =
      (if isDropped s event then [] else [event]) ++
        stripInjected (step inp s event).deleting events := by
  rw [deleting_step]
  exact stripInjected_cons s.deleting event events

/-- When an event is not dropped. -/
theorem isDropped_eq_false_iff :
    isDropped s event = false ↔ s.deleting = 0 ∧ ∀ e ∈ startedElement event,
      isInjectedNode e = false := by
  simp [isDropped, Option.any_eq_false]

/-- A dropped event moves the depth of the deleted node; the start tag of one is noted. -/
theorem step_of_dropped (inp : TransformInputs) (h : isDropped s event) :
    ∃ m, step inp s event = { s with deleting := m } ∨
    ∃ e, event = .startElement e ∧ isInjectedNode e ∧
      step inp s event = { s.noteElement e with deleting := m } := by
  by_cases hdel : s.deleting = 0
  · cases event with
    | startElement e =>
      have hinj : isInjectedNode e := by simpa [isDropped, hdel, startedElement] using h
      exact ⟨1, .inr ⟨e, rfl, hinj,
        by rw [step, if_neg (by simp [hdel]), startElement, if_pos hinj]⟩⟩
    | _ => simp [isDropped, hdel, startedElement] at h
  · cases event <;> exact ⟨_, .inl (by rw [step, if_pos hdel])⟩

end Transform

end PageSpeed.Html
