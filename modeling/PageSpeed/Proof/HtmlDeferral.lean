import PageSpeed.Proof.HtmlAttributes
import PageSpeed.Proof.HtmlDocument

/-!
# No stylesheet is deferred without its inlined block

A pass converts links while the document streams by, and whether the critical block ships is known
later. The queue always holds enough to take the conversions back (`Deferral`): each deferred link
is put back, and each node that serves the deferral is held by a pointer of the filter.

* `linkRun`: the author's links, each with whether the pass defers it.
* `comesBack_iff`: which links come back as the author wrote them.
* `settled_transform`: at the end there is one block, or no trace of a deferral, just if the block
  ships or the links come back.
-/

namespace PageSpeed.Html

open Wire Choice AttributeList Transform List

/-! ## What is claimed of a document -/

variable (events : List HtmlEvent)

/-- The links the author wrote. -/
def authorLinks : List Element :=
  (elements (stripInjected 0 events)).filter (·.keyword = .kLink)

/-- The links of a result, without the hints. -/
def documentLinks : List Element :=
  (elements events).filter fun e => e.keyword = .kLink ∧ ¬ e.attributes.hasName kHintMarker

theorem mem_elements {xs : List Queued} {e : Element} :
    e ∈ elements (xs.map (·.event)) ↔ ∃ q ∈ xs, startedElement q.event = some e := by
  simp [elements]

/-- What makes a link the sheet it is. -/
structure SheetLink where
  rel : Option Bytes
  href : Option Bytes
  media : Option Bytes
  deriving DecidableEq

/-- The style sheet that a link asks for. -/
def sheetLink (as : AttributeList) : SheetLink :=
  ⟨as.value .kRel, as.value .kHref, effectiveMedia (as.value .kMedia)⟩

/-- The link as the author wrote it: one that an earlier pass deferred carries both of its
markers. -/
def authorLink (as : AttributeList) : SheetLink :=
  if as.hasName kAsyncMarker ∧ as.hasName kMediaMarker then
    ⟨some (lit "stylesheet"), as.value .kHref, effectiveMedia (savedMedia as)⟩
  else sheetLink as

/-- The block of critical styles. -/
def isCriticalStyle (e : Element) : Bool :=
  e.keyword = .kStyle ∧ e.attributes.hasName kCriticalMarker

/-- A node that has its place only beside a deferred stylesheet, or is one. -/
def servesDeferral (e : Element) : Bool :=
  (e.keyword = .kLink ∧ e.attributes.hasName kAsyncMarker) ∨
    (e.keyword = .kScript ∧ e.attributes.hasName kLoaderMarker) ∨
    (e.keyword = .kNoscript ∧ e.attributes.hasName kFallbackMarker)

/-- One block, or nothing deferred and every link of the author in its place. -/
def Settled (document result : List HtmlEvent) : Prop :=
  (elements result).countP isCriticalStyle = 1 ∨
    ((∀ e ∈ elements result, servesDeferral e = false) ∧
      (documentLinks result).map (sheetLink ·.attributes) =
        (authorLinks document).map (authorLink ·.attributes))

/-! ## The links of a run -/

/-- The pass defers the link. -/
def Transform.defersLink (inp : TransformInputs) (s : Transform) (e : Element) : Bool :=
  ((s.noteElement e).trackCriticalCssAnchor (cleanLink e)).mayDefer inp (cleanLink e) &&
    isDeferrable (cleanLink e).attributes

/-- The link of an event, with whether it is deferred. -/
def linkOf (inp : TransformInputs) (s : Transform) : HtmlEvent → List (Bool × Element)
  | .startElement e => if e.keyword = .kLink then [(s.defersLink inp e, e)] else []
  | _ => []

/-- The author's links, each with whether the pass defers it. -/
def linkRun (inp : TransformInputs) : Transform → List HtmlEvent → List (Bool × Element)
  | _, [] => []
  | s, event :: events =>
    (if isDropped s event then [] else linkOf inp s event) ++ linkRun inp (s.step inp event) events

/-- The links of a run are those of the document, injected nodes aside. -/
theorem map_linkRun (inp : TransformInputs) (s : Transform) (events : List HtmlEvent) :
    (linkRun inp s events).map Prod.snd =
      (elements (stripInjected s.deleting events)).filter (·.keyword = .kLink) := by
  induction events generalizing s with
  | nil => cases s.deleting <;> rfl
  | cons event events ih =>
    rw [linkRun, stripInjected_step inp, elements, filterMap_append, filter_append, map_append, ih]
    congr 1
    split
    · rfl
    · cases event with
      | startElement e => by_cases hkw : e.keyword = .kLink <;> simp [linkOf, startedElement, hkw]
      | endElement style => rfl
      | leaf contents => rfl

/-- The attributes a link has once its deferral is taken back. -/
def putBack (deferred : Bool) (e : Element) : AttributeList :=
  if deferred then restoreDeferredLink (deferLink (cleanLink e).attributes)
  else (cleanLink e).attributes

/-- What becomes of the media: the deferral of an earlier pass is undone, and that of this pass. -/
def LinkMedia.back (m : LinkMedia) (earlier deferred : Bool) : LinkMedia :=
  let m := if earlier then m.restored else m
  if deferred then m.deferred.restored else m

/-- **The link comes back as the author wrote it**, by its attributes: a marker of an earlier
deferral stands there once, and without a saved media only on a stylesheet; and the media attributes
that are left when the deferrals are undone start with the author's. -/
structure ComesBack (deferred : Bool) (as : AttributeList) : Prop where
  one_async : as.countP (·.name = kAsyncMarker) ≤ 1
  rel : as.hasName kAsyncMarker → as.hasName kMediaMarker = false →
    as.value .kRel = some (lit "stylesheet")
  media : effectiveMedia ((linkMedia as).back (as.hasName kAsyncMarker) deferred).current =
    (authorLink as).media

theorem filter_async_cleanLink {e : Element} (hkw : e.keyword = .kLink) :
    (cleanLink e).attributes.filter (·.name = kAsyncMarker) =
      (e.attributes.filter (·.name = kAsyncMarker)).tail := by
  rw [cleanLink]
  split_ifs with h
  · rw [(butFor_removeAsyncCssMarkers e.attributes).filter_name (by decide),
      filter_async_restoreDeferredLink]
  · have hnone : e.attributes.hasName kAsyncMarker = false := by simpa [hkw] using h
    rw [(hasName_eq_filter _ _).1 hnone, tail_nil]

/-- The media of a link that may have been deferred before. -/
theorem linkMedia_cleanLink {e : Element} (hkw : e.keyword = .kLink) :
    linkMedia (cleanLink e).attributes =
    if e.attributes.hasName kAsyncMarker then (linkMedia e.attributes).restored
    else linkMedia e.attributes := by
  rw [cleanLink]
  by_cases h : e.attributes.hasName kAsyncMarker <;> simp [hkw, h, linkMedia_removeAsyncCssMarkers]

/-- Cleaning a link leaves its target. -/
theorem href_cleanLink (e : Element) :
    (cleanLink e).attributes.value .kHref = e.attributes.value .kHref := by
  rw [cleanLink]
  split_ifs
  · rw [(butFor_cleanup e.attributes).value (by decide)]
  · rfl

/-- A deferred link is a style sheet again. -/
theorem rel_cleanLink {e : Element} (hkw : e.keyword = .kLink) :
    (cleanLink e).attributes.value .kRel =
    if e.attributes.hasName kAsyncMarker then some (lit "stylesheet")
    else e.attributes.value .kRel := by
  rw [cleanLink]
  by_cases h : e.attributes.hasName kAsyncMarker
  · simp only [hkw, h, true_and, if_true]
    rw [(butFor_removeAsyncCssMarkers e.attributes).value (by decide), rel_restoreDeferredLink]
  · simp [h]

/-- The rel, href and media of a link that is put back. -/
theorem sheetLink_putBack {e : Element} {deferred : Bool} (hkw : e.keyword = .kLink)
    (hdeferred : deferred → isDeferrable (cleanLink e).attributes) :
    sheetLink (putBack deferred e) =
      ⟨(cleanLink e).attributes.value .kRel, e.attributes.value .kHref,
        effectiveMedia ((linkMedia e.attributes).back (e.attributes.hasName kAsyncMarker)
          deferred).current⟩ := by
  cases deferred with
  | false =>
    rw [putBack, if_neg (by simp), sheetLink, href_cleanLink, value_eq_current,
      linkMedia_cleanLink hkw]
    rfl
  | true =>
    have hrel : (cleanLink e).attributes.value .kRel = some (lit "stylesheet") := by
      have hdef := hdeferred rfl
      simp only [isDeferrable, decide_eq_true_eq] at hdef
      exact hdef.1
    rw [putBack, if_pos rfl, sheetLink, rel_restoreDeferredLink,
      (butFor_restoreDeferredLink _).value (by decide),
      (butFor_deferLink _).value (by decide), href_cleanLink, hrel, value_eq_current,
        linkMedia_restoreDeferredLink, linkMedia_deferLink, linkMedia_cleanLink hkw]
    rfl

/-- The marker of a deferral is gone, unless the author wrote it twice. -/
theorem async_putBack {e : Element} {deferred : Bool} (hkw : e.keyword = .kLink)
    (hdeferred : deferred → isDeferrable (cleanLink e).attributes) :
    (putBack deferred e).hasName kAsyncMarker = false ↔
      e.attributes.countP (·.name = kAsyncMarker) ≤ 1 := by
  have hclean : (cleanLink e).attributes.hasName kAsyncMarker = false ↔
      e.attributes.countP (·.name = kAsyncMarker) ≤ 1 := by
    rw [hasName_eq_filter, filter_async_cleanLink hkw,
      countP_eq_length_filter, ← length_eq_zero_iff, length_tail]
    omega
  cases deferred with
  | false => rw [putBack, if_neg (by simp), hclean]
  | true =>
    have hnone : (cleanLink e).attributes.hasName kAsyncMarker = false := by
      have hdef := hdeferred rfl
      simp only [isDeferrable, decide_eq_true_eq] at hdef
      simpa using hdef.2.2.1
    rw [putBack, if_pos rfl, hasName_eq_filter, filter_async_restoreDeferredLink,
      filter_async_deferLink, (hasName_eq_filter _ _).1 hnone, ← hclean]
    simp [hnone]

/-- **Which links come back.** -/
theorem comesBack_iff {e : Element} {deferred : Bool} (hkw : e.keyword = .kLink)
    (hdeferred : deferred → isDeferrable (cleanLink e).attributes) :
    (putBack deferred e).hasName kAsyncMarker = false ∧
      sheetLink (putBack deferred e) = authorLink e.attributes ↔
      ComesBack deferred e.attributes := by
  rw [async_putBack hkw hdeferred, sheetLink_putBack hkw hdeferred, rel_cleanLink hkw]
  have hlink : authorLink e.attributes = ⟨(authorLink e.attributes).rel, e.attributes.value .kHref,
      (authorLink e.attributes).media⟩ := by
    rw [authorLink]
    split_ifs <;> rfl
  have hrel : (if e.attributes.hasName kAsyncMarker then some (lit "stylesheet")
    else e.attributes.value .kRel) =
      (authorLink e.attributes).rel ↔
        (e.attributes.hasName kAsyncMarker → e.attributes.hasName kMediaMarker = false →
        e.attributes.value .kRel = some (lit "stylesheet")) := by
    rw [authorLink]
    cases e.attributes.hasName kAsyncMarker <;> cases e.attributes.hasName kMediaMarker <;>
      simp [sheetLink, eq_comm]
  rw [hlink, SheetLink.mk.injEq, hrel]
  exact ⟨fun h => ⟨h.1, h.2.1, h.2.2.2⟩, fun h => ⟨h.one_async, h.rel, rfl, h.media⟩⟩

/-! ## What a node adds -/

/-- The links of a queue, each as it would be put back. -/
def revertedLinks (qs : List Queued) : List SheetLink :=
  (documentLinks ((qs.filterMap revertNode).map (·.event))).map (sheetLink ·.attributes)

/-- Nothing of a deferral is left once the queue is put back. -/
def Reversible (xs : List Queued) : Prop :=
  ∀ q ∈ xs.filterMap revertNode, ∀ e ∈ startedElement q.event, servesDeferral e = false

theorem reversible_append {xs ys : List Queued} : Reversible (xs ++ ys) ↔ Reversible xs ∧
    Reversible ys := by
  rw [Reversible, filterMap_append, forall_mem_append]
  rfl

theorem reversible_filter {xs : List Queued} {p : Queued → Bool}
    (h : ∀ q ∈ xs, p q = false → Reversible [q]) :
    Reversible (xs.filter p) ↔ Reversible xs := by
  induction xs with
  | nil => rfl
  | cons q xs ih =>
    have ih := ih fun x hx => h x (mem_cons_of_mem q hx)
    rw [← singleton_append (l := xs), reversible_append, ← ih]
    cases hp : p q with
    | false =>
      rw [singleton_append, filter_cons_of_neg (by simp [hp])]
      exact ⟨fun hxs => ⟨h q mem_cons_self hp, hxs⟩, fun hxs => hxs.2⟩
    | true => rw [singleton_append, filter_cons_of_pos hp, ← singleton_append, reversible_append]

/-- The links as they are put back. -/
def backLinks (links : List (Bool × Element)) : List SheetLink :=
  links.map fun x => sheetLink (putBack x.1 x.2)

/-- The links are free of the marker once they are put back. -/
def Unmarked (links : List (Bool × Element)) : Prop :=
  ∀ x ∈ links, (putBack x.1 x.2).hasName kAsyncMarker = false

theorem unmarked_append {l m : List (Bool × Element)} : Unmarked (l ++ m) ↔ Unmarked l ∧
    Unmarked m :=
  forall_mem_append

/-- Nodes that add the given links once they are put back, and neither a block nor anything else
that serves a deferral. -/
structure Adds (xs : List Queued) (run : List (Bool × Element)) : Prop where
  links : revertedLinks xs = backLinks run
  reversible : Reversible xs ↔ Unmarked run
  not_held : ∀ q ∈ xs, q.held ≠ .injectedCriticalStyle
  no_style : ∀ q ∈ xs, ∀ e ∈ startedElement q.event, isCriticalStyle e = false

theorem revertedLinks_append (xs ys : List Queued) :
    revertedLinks (xs ++ ys) = revertedLinks xs ++ revertedLinks ys := by
  simp [revertedLinks, documentLinks, elements]

/-- What is added in two steps. -/
theorem Adds.append {xs ys : List Queued} {l m : List (Bool × Element)} (hx : Adds xs l)
    (hy : Adds ys m) :
    Adds (xs ++ ys) (l ++ m) := by
  refine ⟨by rw [revertedLinks_append, hx.links, hy.links, backLinks, backLinks, ← map_append]; rfl,
    ?_, ?_, ?_⟩
  · rw [reversible_append, hx.reversible, hy.reversible, unmarked_append]
  · intro q hq
    exact (mem_append.1 hq).elim (hx.not_held q) (hy.not_held q)
  · intro q hq
    exact (mem_append.1 hq).elim (hx.no_style q) (hy.no_style q)

theorem Adds.nil : Adds [] [] := ⟨rfl, by simp [Reversible, Unmarked], by simp, by simp⟩

theorem Adds.flatMap {α : Type} {f : α → List Queued} {l : List α} (h : ∀ a ∈ l, Adds (f a) []) :
    Adds (l.flatMap f) [] := by
  induction l with
  | nil => exact Adds.nil
  | cons a l ih =>
    rw [flatMap_cons]
    exact (h a mem_cons_self).append (ih fun b hb => h b (mem_cons_of_mem a hb))

variable {inp : TransformInputs} {e : Element} {as : AttributeList} {s : Transform}

/-- A node with no link among its elements. -/
theorem adds_nil_of_forall {xs : List Queued}
    (h : ∀ q ∈ xs, q.held = .other ∧ ∀ e ∈ startedElement q.event,
      servesDeferral e = false ∧ isCriticalStyle e = false ∧
        (e.keyword = .kLink → e.attributes.hasName kHintMarker)) :
    Adds xs [] := by
  have hrevert : xs.filterMap revertNode = xs := by
    rw [filterMap_congr (g := some), filterMap_some]
    intro q hq
    obtain ⟨event, held⟩ := q
    obtain rfl : held = .other := (h _ hq).1
    rfl
  refine ⟨?_, ?_, fun q hq => by simp [(h q hq).1], fun q hq e he => ((h q hq).2 e he).2.1⟩
  · rw [revertedLinks, hrevert, backLinks, map_nil, map_eq_nil_iff, documentLinks,
      filter_eq_nil_iff]
    intro e he
    obtain ⟨q, hq, he⟩ := mem_elements.1 he
    simpa using ((h q hq).2 e he).2.2
  · rw [Reversible, hrevert]
    exact ⟨fun _ => by simp [Unmarked], fun _ q hq e he => ((h q hq).2 e he).1⟩

theorem adds_end (style : CloseStyle) : Adds [⟨.endElement style, .other⟩] [] := by
  apply adds_nil_of_forall
  simp [startedElement]

theorem adds_leaf (contents : Bytes) : Adds [⟨.leaf contents, .other⟩] [] := by
  apply adds_nil_of_forall
  simp [startedElement]

/-- A hint with nothing but text inside. -/
theorem adds_hint {k : Keyword} {children : List HtmlEvent} (hk : k = .kLink ∨ k = .kScript)
    (hchildren : ∀ c ∈ children, startedElement c = none) (hhint : as.hasName kHintMarker)
    (hasync : as.hasName kAsyncMarker = false) (hloader : as.hasName kLoaderMarker = false) :
    Adds (hintEvents as children k) [] := by
  apply adds_nil_of_forall
  intro q hq
  simp only [hintEvents, elementEvents, cons_append, map_cons, map_append, map_nil, mem_cons,
    mem_append, mem_map, not_mem_nil, or_false] at hq
  rcases hq with rfl | ⟨c, hc, rfl⟩ | rfl
  · refine ⟨rfl, ?_⟩
    intro e he
    obtain rfl := Option.mem_some.1 he
    rcases hk with rfl | rfl <;> simp [servesDeferral, isCriticalStyle, newElement, hasync,
      hloader, hhint]
  · exact ⟨rfl, by simp [hchildren c hc]⟩
  · exact ⟨rfl, by simp [startedElement]⟩

theorem adds_fontPreload (url : Bytes) : Adds (hintEvents (fontPreload url) [] .kLink) [] :=
  adds_hint (.inl rfl) (by simp) rfl rfl rfl

theorem adds_preconnectLink (p : PreconnectOrigin) :
    Adds (hintEvents (preconnectLink p) [] .kLink) [] := by
  apply adds_hint (.inl rfl) (by simp)
  all_goals
    rw [preconnectLink]
    split_ifs <;> rfl

/-- A hint adds no link of the author. -/
theorem adds_lcpPreload (c : LcpCandidate) : Adds (hintEvents (lcpPreload c) [] .kLink) [] := by
  apply adds_hint (.inl rfl) (by simp)
  all_goals
    rw [lcpPreload]
    split_ifs <;> rfl

/-! ## Links -/

theorem hint_cleanLink : (cleanLink e).attributes.hasName kHintMarker =
    e.attributes.hasName kHintMarker := by
  rw [cleanLink]
  split_ifs
  · rw [(butFor_cleanup e.attributes).hasName (by decide)]
  · rfl

/-- A link that is put back is no hint. -/
theorem hint_putBack (deferred : Bool) (e : Element) :
    (putBack deferred e).hasName kHintMarker = e.attributes.hasName kHintMarker := by
  rw [putBack]
  split_ifs
  · rw [(butFor_restoreDeferredLink _).hasName (by decide),
      (butFor_deferLink _).hasName (by decide), hint_cleanLink]
  · rw [hint_cleanLink]

/-- One link, as it is put back. -/
theorem adds_link {xs : List Queued} {name : HtmlName} {deferred : Bool}
    (hname : name.keyword = .kLink) (hhint : e.attributes.hasName kHintMarker = false)
    (hrevert : xs.filterMap revertNode = [⟨.startElement ⟨name, putBack deferred e⟩, .other⟩])
    (hheld : ∀ q ∈ xs, q.held ≠ .injectedCriticalStyle)
    (hstyle : ∀ q ∈ xs, ∀ e ∈ startedElement q.event, isCriticalStyle e = false) :
    Adds xs [(deferred, e)] := by
  refine ⟨?_, ?_, hheld, hstyle⟩
  · simp [revertedLinks, hrevert, documentLinks, elements, startedElement, hname, hint_putBack,
      hhint, backLinks]
  · simp [Reversible, hrevert, startedElement, servesDeferral, hname, Unmarked]

/-- A deferred link, with the nodes that serve its deferral. -/
theorem adds_deferredNodes (hkw : e.keyword = .kLink)
    (hhint : e.attributes.hasName kHintMarker = false) :
    Adds (s.deferredNodes (cleanLink e)
      ⟨deferLink (cleanLink e).attributes, fallbackLink (cleanLink e).attributes⟩) [(true, e)] := by
  have hname : (cleanLink e).keyword = .kLink := by rw [keyword_cleanLink, hkw]
  have hnone : ∀ l : List HtmlEvent,
      (l.map (Queued.mk · .asyncCssInjected)).filterMap revertNode = [] := by
    intro l
    rw [filterMap_eq_nil_iff]
    intro q hq
    obtain ⟨event, -, rfl⟩ := mem_map.1 hq
    rfl
  refine adds_link hname hhint ?_ ?_ ?_
  · rw [deferredNodes, filterMap_cons, hnone]
    rfl
  · intro q hq
    rw [deferredNodes, mem_cons, mem_map] at hq
    rcases hq with rfl | ⟨event, -, rfl⟩ <;> simp
  · intro q hq e' he'
    -- the nodes are a link, a noscript with a link in it, and perhaps a script
    rw [deferredNodes, mem_cons] at hq
    rcases hq with rfl | hq
    · obtain rfl := Option.mem_some.1 he'
      simp [isCriticalStyle, hkw]
    · obtain ⟨event, hevent, rfl⟩ := mem_map.1 hq
      have hev : event ∈ fallbackNoscript (fallbackLink (cleanLink e).attributes) ++
          asyncCssLoader := by
        rw [mem_append] at hevent ⊢
        refine hevent.imp id fun h => ?_
        split_ifs at h
        · cases h
        · exact h
      simp only [fallbackNoscript, asyncCssLoader, elementEvents, cons_append, nil_append, mem_cons,
        not_mem_nil, or_false] at hev
      rcases hev with rfl | rfl | rfl | rfl | rfl | rfl <;>
        simp only [startedElement, Option.mem_def, Option.some.injEq, reduceCtorEq] at he'
      all_goals
        subst he'
        simp [isCriticalStyle, newElement]

/-! ## Elements in their place -/

@[simp] theorem lookup_defer : Keyword.lookup (lit "defer") = .kDefer := by decide
@[simp] theorem lookup_kDeferMarker : Keyword.lookup kDeferMarker = .kNotAKeyword := by decide

/-- A script gets or loses `defer` only. -/
theorem butFor_rewriteScript (inp : TransformInputs) (as : AttributeList) :
    ButFor [.kDefer] [kDeferMarker] as (rewriteScript inp as) := by
  have hundefer : ButFor [.kDefer] [kDeferMarker] as (undeferScript as) := by
    rw [undeferScript]
    split_ifs
    · exact ((ButFor.refl as).deleteName (by simp)).deleteKeyword (by simp)
    · exact ButFor.refl as
  rw [rewriteScript, applyScriptDeferral]
  split_ifs
  · split
    · exact hundefer
    · split_ifs
      · exact hundefer
      · exact (hundefer.add (by simp)).add (by simp)
  · exact hundefer

/-- An element that is placed adds its own link, if it is one. -/
theorem adds_placed (hinj : isInjectedNode e = false) :
    Adds [⟨.startElement { cleanLink e with
        attributes := (s.rewriteElement inp (cleanLink e)).2 }, .other⟩]
      (if e.keyword = .kLink then [(false, e)] else []) := by
  simp only [isInjectedNode, decide_eq_false_iff_not, not_or, not_and, Bool.not_eq_true] at hinj
  obtain ⟨hstyle, hhint, hnoscript, hloader⟩ := hinj
  by_cases hkw : e.keyword = .kLink
  · have hname : (cleanLink e).keyword = .kLink := by rw [keyword_cleanLink, hkw]
    have hrewrite : (s.rewriteElement inp (cleanLink e)).2 = putBack false e := by
      simp [rewriteElement, hkw, putBack]
    rw [hrewrite, if_pos hkw]
    refine adds_link hname (hhint (.inl hkw)) rfl (by simp) ?_
    simp [startedElement, isCriticalStyle, hkw]
  · rw [if_neg hkw, cleanLink_of_not_link hkw]
    apply adds_nil_of_forall
    intro q hq
    obtain rfl := mem_singleton.1 hq
    refine ⟨rfl, ?_⟩
    intro e' he'
    obtain rfl := Option.mem_some.1 he'
    refine ⟨?_, ?_, fun h => absurd h hkw⟩
    · by_cases hscript : e.keyword = .kScript
      · have hloader' :=
          (butFor_rewriteScript inp e.attributes).hasName (n := kLoaderMarker) (by decide)
        simp [servesDeferral, rewriteElement, hscript, hloader', hloader hscript]
      · by_cases hno : e.keyword = .kNoscript
        · simp [servesDeferral, rewriteElement, hno, hnoscript hno]
        · simp [servesDeferral, hkw, hscript, hno]
    · by_cases hst : e.keyword = .kStyle
      · simp [isCriticalStyle, rewriteElement, hst, hstyle hst]
      · simp [isCriticalStyle, hst]

/-! ## The invariant -/

/-- The queue can be brought to the state without deferrals, and holds the block when it is
injected. -/
structure Deferral (run : List (Bool × Element)) (s : Transform) : Prop where
  links : revertedLinks s.queue = backLinks run
  reversible : Reversible s.queue ↔ Unmarked run
  held : ∀ q ∈ s.queue, ∀ e ∈ startedElement q.event, isCriticalStyle e ↔
    q.held = .injectedCriticalStyle
  styles : (elements (s.queue.map (·.event))).countP isCriticalStyle =
    if s.criticalCssInjected then 1 else 0

variable {s t : Transform} {links new : List (Bool × Element)} {xs : List Queued}

theorem Deferral.congr (h : Deferral links s) (hq : t.queue = s.queue)
    (hi : t.criticalCssInjected = s.criticalCssInjected) : Deferral links t :=
  ⟨hq ▸ h.links, hq ▸ h.reversible, hq ▸ h.held, hi ▸ hq ▸ h.styles⟩

/-- Nothing that is added is the block. -/
theorem Adds.styles (h : Adds xs new) :
    (elements (xs.map (·.event))).countP isCriticalStyle = 0 := by
  rw [countP_eq_zero]
  intro e he
  obtain ⟨q, hq, he⟩ := mem_elements.1 he
  simp [h.no_style q hq e he]

theorem elements_append (xs ys : List HtmlEvent) : elements (xs ++ ys) = elements xs ++
    elements ys :=
  filterMap_append

/-- What goes out carries the invariant along. -/
theorem Deferral.emit (h : Deferral links s) (hx : Adds xs new) :
    Deferral (links ++ new) (s.emit xs) := by
  refine ⟨?_, ?_, ?_, ?_⟩
  · rw [queue_emit, revertedLinks_append, h.links, hx.links, backLinks, backLinks,
      backLinks, map_append]
  · rw [queue_emit, reversible_append, h.reversible, hx.reversible, unmarked_append]
  · intro q hq e he
    rw [queue_emit, mem_append] at hq
    rcases hq with hq | hq
    · exact h.held q hq e he
    · simp [hx.no_style q hq e he, hx.not_held q hq]
  · rw [queue_emit, map_append, elements_append, countP_append, h.styles, hx.styles,
      criticalCssInjected_emit, Nat.add_zero]

theorem Deferral.emit_nil (h : Deferral links s) (hx : Adds xs []) :
    Deferral links (s.emit xs) := by
  simpa using h.emit hx

/-- Taking the block out of the queue takes no link with it. -/
theorem revertedLinks_filter {p : Queued → Bool}
    (h : ∀ q ∈ xs, p q = false → revertedLinks [q] = []) :
    revertedLinks (xs.filter p) = revertedLinks xs := by
  induction xs with
  | nil => rfl
  | cons q xs ih =>
    have ih := ih fun x hx => h x (mem_cons_of_mem q hx)
    cases hp : p q with
    | false =>
      rw [filter_cons_of_neg (by simp [hp]), ih, ← singleton_append, revertedLinks_append,
        h q mem_cons_self hp, nil_append]
    | true =>
      rw [filter_cons_of_pos hp, ← singleton_append, revertedLinks_append,
        ih, ← revertedLinks_append, singleton_append]

theorem Deferral.noteElement (h : Deferral links s) (e : Element) :
    Deferral links (s.noteElement e) := by
  rcases noteElement_cases (s := s) (e := e) with ⟨hq, hi⟩ | ⟨hq, hi⟩
  · exact h.congr hq hi
  · refine ⟨?_, ?_, ?_, ?_⟩
    · rw [hq, revertedLinks_filter, h.links]
      intro q hmem hheld
      -- a node of the block is no link
      have hheld : q.held = .injectedCriticalStyle := by simpa using hheld
      obtain ⟨event, held⟩ := q
      obtain rfl : held = .injectedCriticalStyle := hheld
      cases event with
      | startElement e' =>
        have hstyle := (h.held _ hmem e' rfl).2 rfl
        simp only [isCriticalStyle, decide_eq_true_eq] at hstyle
        simp [revertedLinks, revertNode, documentLinks, elements, startedElement, hstyle.1]
      | endElement style => rfl
      | leaf contents => rfl
    · rw [hq, reversible_filter, h.reversible]
      intro q hmem hheld
      obtain ⟨event, held⟩ := q
      obtain rfl : held = .injectedCriticalStyle := by simpa using hheld
      rintro - (_ | ⟨_, ⟨⟩⟩) e' he'
      have hstyle := (h.held _ hmem e' he').2 rfl
      simp only [isCriticalStyle, decide_eq_true_eq] at hstyle
      simp [servesDeferral, hstyle.1]
    · intro q hmem
      rw [hq] at hmem
      exact h.held q (mem_of_mem_filter hmem)
    · rw [hq, hi, if_neg (by simp), countP_eq_zero]
      intro e' he' hstyle
      obtain ⟨q, hmem, he'⟩ := mem_elements.1 he'
      obtain ⟨hmem, hheld⟩ := mem_filter.1 hmem
      exact of_decide_eq_true hheld ((h.held q hmem e' he').1 hstyle)

/-! ## The block -/

/-- The block is put somewhere into the queue. -/
theorem queue_putBlock (inp : TransformInputs) (s : Transform) (text : Bytes) : ∃ before after,
    s.queue = before ++ after ∧
    (s.putBlock inp text).queue = before ++ criticalStyle text ++ after := by
  rw [putBlock]
  split_ifs
  · exact ⟨s.done, s.fromAnchor.getD [], rfl, rfl⟩
  · refine ⟨s.queue, [], by simp, ?_⟩
    rw [append_nil]
    exact queue_emit

/-- The block is put in once. -/
theorem Deferral.putBlock (h : Deferral links s) (hinj : s.criticalCssInjected = false)
    (text : Bytes) :
    Deferral links (s.putBlock inp text) := by
  obtain ⟨before, after, hold, hnew⟩ := queue_putBlock inp s text
  have hset : (s.putBlock inp text).criticalCssInjected = true := by
    rw [Transform.putBlock]
    split_ifs <;> rfl
  obtain ⟨hlinks, hrev, hheld, hstyles⟩ := h
  rw [hold] at hlinks hrev hheld hstyles
  refine ⟨?_, ?_, ?_, ?_⟩
  · have hblock : revertedLinks (criticalStyle text) = [] := rfl
    rw [hnew, revertedLinks_append, revertedLinks_append, hblock,
      append_nil, ← revertedLinks_append, hlinks]
  · have hblock : Reversible (criticalStyle text) := by
      intro q hq e he
      simp only [criticalStyle, elementEvents, newElement, cons_append, nil_append, map_cons,
        map_nil, filterMap_cons, revertNode, filterMap_nil, mem_cons, not_mem_nil, or_false] at hq
      rcases hq with rfl | rfl | rfl <;> cases he
      simp [servesDeferral]
    rw [reversible_append] at hrev
    rw [hnew, reversible_append, reversible_append, ← hrev]
    exact ⟨fun h => ⟨h.1.1, h.2⟩, fun h => ⟨⟨h.1, hblock⟩, h.2⟩⟩
  · intro q hq e he
    rw [hnew, mem_append, mem_append] at hq
    rcases hq with (hq | hq) | hq
    · exact hheld q (mem_append_left _ hq) e he
    · simp only [criticalStyle, elementEvents, newElement, cons_append, nil_append, map_cons,
        map_nil, mem_cons, not_mem_nil, or_false] at hq
      rcases hq with rfl | rfl | rfl <;>
        simp only [startedElement, Option.mem_def, Option.some.injEq, reduceCtorEq] at he
      subst he
      simp [isCriticalStyle, hasName, findName]
    · exact hheld q (mem_append_right _ hq) e he
  · have hone : (elements ((criticalStyle text).map (·.event))).countP isCriticalStyle = 1 := by
      simp [criticalStyle, elementEvents, elements, startedElement, isCriticalStyle, newElement,
        hasName, findName]
    rw [map_append, elements_append, countP_append, hinj, if_neg (by simp)] at hstyles
    rw [hnew, hset, map_append, map_append, elements_append, elements_append, countP_append,
      countP_append, hone, if_pos rfl]
    omega

/-- The invariant behind the end tags that inject. -/
theorem Deferral.injectCriticalCss (h : Deferral links s) (e : HtmlName) :
    Deferral links (s.injectCriticalCss inp e) := by
  rw [Transform.injectCriticalCss]
  by_cases hskip : s.skipsBlock inp
  · rw [if_pos hskip]
    exact h
  · have hinj : s.criticalCssInjected = false := by
      simp only [skipsBlock, decide_eq_true_eq, not_or] at hskip
      simpa using hskip.2.1
    rw [if_neg hskip]
    split
    · exact h
    · split
      · exact h.congr rfl rfl
      · exact h.putBlock hinj _

/-! ## End tags -/

theorem Deferral.endHead (h : Deferral links s) (e : HtmlName) :
    Deferral links (s.endHead inp e) := by
  have hfont : Deferral links (s.injectFontPreload inp) := by
    rw [injectFontPreload]
    split_ifs
    · exact (h.emit_nil (Adds.flatMap fun url _ => adds_fontPreload url)).congr rfl rfl
    · exact h
  have hpre : Deferral links ((s.injectFontPreload inp).injectPreconnectLinks inp) := by
    rw [injectPreconnectLinks]
    split_ifs
    · exact (hfont.emit_nil (Adds.flatMap fun p _ => adds_preconnectLink p)).congr rfl rfl
    · exact hfont
  have hlcp : Deferral links
      (((s.injectFontPreload inp).injectPreconnectLinks inp).injectLcpPreload inp) := by
    rw [injectLcpPreload]
    split_ifs
    · exact (hpre.emit_nil (adds_lcpPreload _)).congr rfl rfl
    · exact hpre
  exact hlcp.injectCriticalCss e

theorem Deferral.endBody (h : Deferral links s) (e : HtmlName) :
    Deferral links (s.endBody inp e) := by
  have hrules : Deferral links (s.injectSpeculationRules inp) := by
    rw [injectSpeculationRules]
    split_ifs
    · refine (h.emit_nil (adds_hint (.inr rfl) ?_ rfl rfl rfl)).congr rfl rfl
      simp [startedElement]
    · exact h
  exact (hrules.injectCriticalCss e).congr rfl rfl

/-- Every end tag keeps it. -/
theorem Deferral.endElement (inp : TransformInputs) (h : Deferral links s) (style : CloseStyle) :
    Deferral links (s.endElement inp style) := by
  rw [Transform.endElement]
  split
  · exact h.emit_nil (adds_end style)
  · next e ancestors _ =>
    have hnote : Deferral links ({ s with openElements := ancestors }.noteSelectEnd e style) :=
      h.congr rfl rfl
    refine Deferral.emit_nil ?_ (adds_end style)
    rw [closeElement]
    split
    · exact hnote.endHead e
    · exact hnote.endBody e
    · exact hnote

/-! ## Start tags -/

/-- A start tag adds its link. -/
theorem Deferral.startElement (inp : TransformInputs) (h : Deferral links s)
    (hinj : isInjectedNode e = false) :
    Deferral (links ++ linkOf inp s (.startElement e)) (s.startElement inp e) := by
  -- the queue sees the tag only where it is placed, so the tracking is set aside
  rw [Transform.startElement, if_neg (by simp [hinj]), linkOf, defersLink]
  have htrack : Deferral links ((s.noteElement e).trackCriticalCssAnchor (cleanLink e)) :=
    (h.noteElement e).congr queue_trackCriticalCssAnchor criticalCssInjected_trackCriticalCssAnchor
  generalize (s.noteElement e).trackCriticalCssAnchor (cleanLink e) = t at htrack
  suffices hplace : Deferral (links ++ if e.keyword = .kLink then
      [(t.mayDefer inp (cleanLink e) && isDeferrable (cleanLink e).attributes, e)] else [])
      (t.placeElement inp (cleanLink e)) from hplace.congr rfl rfl
  rw [Transform.placeElement]
  cases hd : (if t.mayDefer inp (cleanLink e) then deferCss (cleanLink e).attributes else none) with
  | some d =>
    obtain ⟨hmay, hdef, rfl⟩ := deferCss_spec hd
    -- the gate passed, so it is a link, and one that no earlier run has left
    have hkw : e.keyword = .kLink := by
      have hgate := hmay
      simp only [mayDefer, decide_eq_true_eq, keyword_cleanLink] at hgate
      exact hgate.2.2.2.1
    have hhint : e.attributes.hasName kHintMarker = false := by
      simp only [isInjectedNode, decide_eq_false_iff_not, not_or, not_and, Bool.not_eq_true] at hinj
      exact hinj.2.1 (.inl hkw)
    rw [if_pos hkw, hmay, hdef, Bool.true_and]
    exact (htrack.emit (adds_deferredNodes hkw hhint)).congr rfl rfl
  | none =>
    have hflag : (t.mayDefer inp (cleanLink e) &&
        isDeferrable (cleanLink e).attributes) = false := by
      rw [Bool.and_eq_false_iff]
      by_contra hboth
      simp only [not_or, Bool.not_eq_false] at hboth
      simp [hboth.1, hboth.2, deferCss] at hd
    rw [hflag]
    obtain ⟨m, n, b, hs⟩ := counted_rewriteElement inp t (cleanLink e)
    have hcount : Deferral links (t.rewriteElement inp (cleanLink e)).1 := by
      rw [hs]
      exact htrack.congr rfl rfl
    exact hcount.emit (adds_placed hinj)

/-! ## The run -/

/-- One event. -/
theorem Deferral.step (inp : TransformInputs) {event : HtmlEvent} (h : Deferral links s) :
    Deferral (links ++ if isDropped s event then [] else linkOf inp s event)
      (s.step inp event) := by
  split_ifs with hdrop
  · rw [append_nil]
    obtain ⟨m, hs | ⟨e, -, -, hs⟩⟩ := step_of_dropped inp hdrop
    · rw [hs]
      exact h.congr rfl rfl
    · rw [hs]
      exact (h.noteElement e).congr rfl rfl
  · obtain ⟨hdel, hinj⟩ := isDropped_eq_false_iff.1 (Bool.eq_false_iff.2 hdrop)
    cases event with
    | startElement e =>
      rw [Transform.step, if_neg (by simp [hdel])]
      exact h.startElement inp (hinj e rfl)
    | endElement style =>
      rw [Transform.step, if_neg (by simp [hdel]), show linkOf inp s (.endElement style) =
        [] from rfl, append_nil]
      exact h.endElement inp style
    | leaf contents =>
      rw [Transform.step, if_neg (by simp [hdel]), show linkOf inp s (.leaf contents) =
        [] from rfl, append_nil]
      exact h.emit_nil (adds_leaf contents)

/-- A whole document. -/
theorem Deferral.run (inp : TransformInputs) (events : List HtmlEvent) (h : Deferral links s) :
    Deferral (links ++ linkRun inp s events) (events.foldl (Transform.step inp) s) := by
  induction events generalizing s links with
  | nil =>
    rw [linkRun, append_nil]
    exact h
  | cons event events ih =>
    rw [foldl_cons, linkRun, ← append_assoc]
    exact ih (h.step inp)

/-- A link that is deferred can be. -/
theorem isDeferrable_of_mem_linkRun {events : List HtmlEvent} {x : Bool × Element}
    (h : x ∈ linkRun inp s events) :
    x.2.keyword = .kLink ∧ (x.1 → isDeferrable (cleanLink x.2).attributes) := by
  induction events generalizing s with
  | nil => cases h
  | cons event events ih =>
    rw [linkRun, mem_append] at h
    rcases h with h | h
    · split_ifs at h
      · cases h
      · cases event with
        | startElement e =>
          rw [linkOf] at h
          split_ifs at h with hkw
          · obtain rfl := mem_singleton.1 h
            exact ⟨hkw, fun hflag => (Bool.and_eq_true_iff.1 hflag).2⟩
          · cases h
        | endElement style => cases h
        | leaf contents => cases h
    · exact ih h

/-- Putting a link back makes no block of it. -/
theorem isCriticalStyle_revertNode {q q' : Queued} {e' : Element} (h : revertNode q = some q')
    (he' : e' ∈ startedElement q'.event) : ∃ e ∈ startedElement q.event,
      isCriticalStyle e = isCriticalStyle e' := by
  obtain ⟨event, held⟩ := q
  cases event with
  | startElement e =>
    cases held <;> cases h
    · exact ⟨e', he', rfl⟩
    · obtain rfl := Option.mem_some.1 he'
      refine ⟨e, rfl, ?_⟩
      simp [isCriticalStyle, (butFor_restoreDeferredLink e.attributes).hasName
        (n := kCriticalMarker) (by decide)]
    · exact ⟨e', he', rfl⟩
  | endElement style => cases held <;> cases h <;> cases he'
  | leaf contents => cases held <;> cases h <;> cases he'

/-- **No deferral without the block**, just if the links come back where the block does not ship. A
pass ends with one block, or with no trace of a deferral and every link of the author in its place,
if and only if it injects the block or every link comes back. -/
theorem settled_transform (inp : TransformInputs) (document : List HtmlEvent) :
    Settled document (transform inp document) ↔
      (document.foldl (Transform.step inp) {}).criticalCssInjected = true ∨
        ∀ x ∈ linkRun inp {} document, ComesBack x.1 x.2.attributes := by
  have hinit : Deferral [] ({} : Transform) :=
    ⟨rfl, by simp [Transform.queue, Reversible, Unmarked], by simp [Transform.queue], rfl⟩
  have hrun := hinit.run inp document
  rw [nil_append] at hrun
  have hauthor : (authorLinks document).map (authorLink ·.attributes) =
      (linkRun inp {} document).map fun x => authorLink x.2.attributes := by
    rw [authorLinks, ← map_linkRun inp {} document, map_map]
    rfl
  rw [Settled, hauthor, transform, transformQueue, endDocument]
  generalize document.foldl (Transform.step inp) {} = s at hrun
  split_ifs with hinj
  · exact ⟨fun _ => .inl hinj, fun _ => .inl (by rw [hrun.styles, if_pos hinj])⟩
  · have hqueue : (s.mapQueue (·.filterMap revertNode)).queue = s.queue.filterMap revertNode := by
      cases hanchor : s.fromAnchor <;> simp [Transform.queue, mapQueue, hanchor]
    -- the block is nowhere, and every link is put back
    have hnone : (elements ((s.queue.filterMap revertNode).map (·.event))).countP
        isCriticalStyle ≠ 1 := by
      have hzero := hrun.styles
      rw [if_neg hinj, countP_eq_zero] at hzero
      rw [countP_eq_zero.2, ne_eq]
      · exact Nat.zero_ne_one
      · intro e' he'
        obtain ⟨q', hq', he'⟩ := mem_elements.1 he'
        obtain ⟨q, hq, hrevert⟩ := mem_filterMap.1 hq'
        obtain ⟨e, he, hsame⟩ := isCriticalStyle_revertNode hrevert he'
        rw [← hsame]
        exact hzero e (mem_elements.2 ⟨q, hq, he⟩)
    have hserves : (∀ e ∈ elements ((s.queue.filterMap revertNode).map (·.event)),
      servesDeferral e = false) ↔ Reversible s.queue := by
      simp only [mem_elements, Reversible]
      refine ⟨fun h q hq e he => h e ⟨q, hq, he⟩, ?_⟩
      rintro h e ⟨q, hq, he⟩
      exact h q hq e he
    have hlinks := hrun.links
    rw [revertedLinks, backLinks] at hlinks
    rw [hqueue, hserves, hrun.reversible, hlinks, map_inj_left, Unmarked, ← forall₂_and]
    simp only [hnone, hinj, Bool.false_eq_true, false_or]
    refine forall₂_congr fun x hx => ?_
    obtain ⟨hkw, hdeferred⟩ := isDeferrable_of_mem_linkRun hx
    exact comesBack_iff hkw hdeferred

section Examples

/-- Inputs that defer every link they can. -/
def deferringInputs : TransformInputs where
  config := { enableAsyncCss := true }
  criticalCss := lit "a"

/-- A page without a head: the block has no place. -/
def headlessPage (as : AttributeList) : List HtmlEvent := elementEvents (newElement .kLink as) []

/-- A link to a style sheet for screens. -/
def screenSheet : AttributeList :=
  [⟨lit "rel", some (lit "stylesheet")⟩, ⟨lit "href", some (lit "/a.css")⟩,
    ⟨lit "media", some (lit "screen")⟩]

-- A link was deferred before the page turned out to have no head, and comes back; so does one with
-- a second media.
example : Settled (headlessPage screenSheet)
    (transform deferringInputs (headlessPage screenSheet)) ∧
    Settled (headlessPage (screenSheet ++ [⟨lit "media", some (lit "print")⟩]))
      (transform deferringInputs
        (headlessPage (screenSheet ++ [⟨lit "media", some (lit "print")⟩]))) := by
  rw [Settled, Settled]
  decide

/-- An author's own `data-pagespeed-media` stands before the one that the deferral saves, and is
what comes back. -/
theorem not_settled_transform_authorMarker :
    ¬ Settled (headlessPage (screenSheet ++ [⟨kMediaMarker, some (lit "print")⟩]))
      (transform deferringInputs
        (headlessPage (screenSheet ++ [⟨kMediaMarker, some (lit "print")⟩]))) := by
  rw [Settled]
  decide

end Examples

end PageSpeed.Html
