import PageSpeed.Spec.HtmlTransform

/-!
# Attribute lists

How a search for one attribute sees the operations on the others, and what the two directions of the
stylesheet deferral, `deferLink` and `restoreDeferredLink`, do to a link.

* `rel_restoreDeferredLink`: a link that is put back is a stylesheet.
* `linkMedia_deferLink`, `linkMedia_restoreDeferredLink`: what becomes of its media attributes.
-/

namespace PageSpeed.Html

open Wire Choice List

/-! ## Names and their keywords -/

@[simp] theorem lookup_rel : Keyword.lookup (lit "rel") = .kRel := by decide
@[simp] theorem lookup_as : Keyword.lookup (lit "as") = .kAs := by decide
@[simp] theorem lookup_media : Keyword.lookup (lit "media") = .kMedia := by decide
@[simp] theorem lookup_kMediaMarker : Keyword.lookup kMediaMarker = .kNotAKeyword := by decide
@[simp] theorem lookup_kAsyncMarker : Keyword.lookup kAsyncMarker = .kNotAKeyword := by decide
@[simp] theorem lookup_fetchpriority :
    Keyword.lookup (lit "fetchpriority") = .kNotAKeyword := by decide

namespace AttributeList

variable {as bs cs : AttributeList} {k l : Keyword} {n v : Bytes} {ks : List Keyword}
  {ns : List Bytes}

/-! ## The other attributes -/

/-- The lists differ in attributes of these keywords and names only: what looks at other names sees
the same. -/
def ButFor (ks : List Keyword) (ns : List Bytes) (as bs : AttributeList) : Prop :=
  ∀ q : Bytes → Bool, (∀ n, Keyword.lookup n ∈ ks ∨ n ∈ ns → ¬ q n) →
    bs.filter (q ·.name) = as.filter (q ·.name)

namespace ButFor

theorem refl (as : AttributeList) : ButFor ks ns as as := fun _ _ => rfl

variable (h : ButFor ks ns as bs)
include h

/-- Fewer lists are touched than allowed. -/
theorem mono {ks' : List Keyword} {ns' : List Bytes} (hk : ks ⊆ ks') (hn : ns ⊆ ns') :
    ButFor ks' ns' as bs :=
  fun q hq => h q fun n h => hq n (h.imp (@hk _) (@hn _))

theorem trans (h' : ButFor ks ns bs cs) : ButFor ks ns as cs := fun q hq => (h' q hq).trans (h q hq)

theorem add (hn : Keyword.lookup n ∈ ks ∨ n ∈ ns) : ButFor ks ns as (bs.add n v) := by
  intro q hq
  rw [← h q hq]
  simp [AttributeList.add, hq n hn]

/-- A deletion touches its keyword only. -/
theorem deleteKeyword (hk : k ∈ ks) : ButFor ks ns as (bs.deleteKeyword k) := by
  intro q hq
  rw [← h q hq]
  apply filter_eraseP_of_disjoint
  rintro a ha
  obtain rfl : Keyword.lookup a.name = k := of_decide_eq_true ha
  exact hq a.name (.inl hk)

theorem deleteName (hn : Keyword.lookup n ∈ ks ∨ n ∈ ns) : ButFor ks ns as (bs.deleteName n) := by
  intro q hq
  rw [← h q hq]
  apply filter_eraseP_of_disjoint
  intro a ha
  exact hq a.name (of_decide_eq_true ha ▸ hn)

/-- So does a new value. -/
theorem setValue (hk : k ∈ ks) : ButFor ks ns as (bs.setValue k v) := by
  intro q hq
  have hne : ∀ a : Attribute, decide (a.keyword = k) → ¬ q a.name := by
    intro a ha
    obtain rfl : Keyword.lookup a.name = k := of_decide_eq_true ha
    exact hq a.name (.inl hk)
  rw [← h q hq]
  apply filter_updateFirst_of_disjoint hne
  intro a ha
  exact hne a ha

/-- The attributes of an untouched keyword. -/
theorem filter_keyword (hk : k ∉ ks ++ ns.map Keyword.lookup) :
    bs.filter (·.keyword = k) = as.filter (·.keyword = k) := by
  refine h (fun n => Keyword.lookup n = k) fun n hn heq => hk ?_
  rw [← of_decide_eq_true heq]
  exact mem_append.2 (hn.imp_right mem_map_of_mem)

theorem findKeyword (hk : k ∉ ks ++ ns.map Keyword.lookup) :
    bs.findKeyword k = as.findKeyword k := by
  rw [AttributeList.findKeyword, ← head?_filter, h.filter_keyword hk, head?_filter]
  rfl

/-- The value of an untouched keyword. -/
theorem value (hk : k ∉ ks ++ ns.map Keyword.lookup) : bs.value k = as.value k := by
  rw [AttributeList.value, h.findKeyword hk]
  rfl

/-- The attributes of an untouched name. -/
theorem filter_name (hn : Keyword.lookup n ∉ ks ∧ n ∉ ns) :
    bs.filter (·.name = n) = as.filter (·.name = n) := by
  refine h (fun m => m = n) fun m hm heq => ?_
  rw [of_decide_eq_true heq] at hm
  exact hm.elim hn.1 hn.2

theorem findName (hn : Keyword.lookup n ∉ ks ∧ n ∉ ns) : bs.findName n = as.findName n := by
  rw [AttributeList.findName, ← head?_filter, h.filter_name hn, head?_filter]
  rfl

/-- Whether an untouched name is there. -/
theorem hasName (hn : Keyword.lookup n ∉ ks ∧ n ∉ ns) : bs.hasName n = as.hasName n := by
  rw [AttributeList.hasName, h.findName hn]
  rfl

end ButFor

/-! ## The attribute itself -/

theorem findKeyword_setValue_self :
    (as.setValue k v).findKeyword k = (as.findKeyword k).map ({ · with value := some v }) := by
  apply find?_updateFirst_self
  intro a ha
  exact ha

/-- A value that was set is found. -/
theorem value_setValue_self (h : as.hasKeyword k) : (as.setValue k v).value k = some v := by
  obtain ⟨a, ha⟩ := Option.isSome_iff_exists.1 h
  rw [value, findKeyword_setValue_self, ha]
  rfl

/-- A value that was added is found if it is the first. -/
theorem value_add_self (h : Keyword.lookup n = k) (hk : as.findKeyword k = none) :
    (as.add n v).value k = some v := by
  have ha : (Attribute.mk n (some v)).keyword = k := h
  rw [findKeyword] at hk
  simp [value, findKeyword, add, List.find?_append, hk, ha]

end AttributeList

/-! ## Putting a link back -/

open AttributeList

variable {as : AttributeList} {ks : List Keyword} {ns : List Bytes} {saved : Option Bytes}

theorem butFor_stylesheetRel (h : .kRel ∈ ks) : ButFor ks ns as (stylesheetRel as) := by
  rw [stylesheetRel]
  split_ifs
  · exact (ButFor.refl as).setValue h
  · exact (ButFor.refl as).add (.inl (by rwa [lookup_rel]))

/-- The link is a style sheet. -/
theorem rel_stylesheetRel (as : AttributeList) :
    (stylesheetRel as).value .kRel = some (lit "stylesheet") := by
  rw [stylesheetRel]
  split_ifs with h
  · exact value_setValue_self h
  · apply value_add_self (by simp)
    rwa [hasKeyword, Option.not_isSome_iff_eq_none] at h

/-- The attributes of a link that a deferral touches. -/
def deferKeywords : List Keyword := [.kRel, .kAs, .kMedia]

/-- The markers of a deferral. -/
def deferNames : List Bytes := [kMediaMarker, kAsyncMarker]

theorem butFor_addSavedMedia (h : .kMedia ∈ ks) : ButFor ks ns as (addSavedMedia saved as) := by
  rw [addSavedMedia]
  split_ifs
  · exact (ButFor.refl as).add (.inl (by rwa [lookup_media]))
  · exact ButFor.refl as

/-- What putting a link back does before it removes the markers. -/
theorem butFor_restored (as : AttributeList) (saved : Option Bytes) :
    ButFor [.kAs, .kMedia] [] (stylesheetRel as)
    (addSavedMedia saved (((stylesheetRel as).deleteKeyword .kAs).deleteKeyword .kMedia)) :=
  (((ButFor.refl _).deleteKeyword (by simp)).deleteKeyword (by simp)).trans
    (butFor_addSavedMedia (by simp))

theorem butFor_deleteMarkers (ks : List Keyword) (bs : AttributeList) :
    ButFor ks deferNames bs ((bs.deleteName kMediaMarker).deleteName kAsyncMarker) :=
  ((ButFor.refl bs).deleteName (.inr (by decide))).deleteName (.inr (by decide))

theorem butFor_unmarked (as : AttributeList) :
    ButFor [.kAs, .kMedia] deferNames (stylesheetRel as) (restoreDeferredLink as) :=
  ((butFor_restored as _).mono (by simp) (by simp)).trans (butFor_deleteMarkers _ _)

/-- A link that is put back keeps the attributes that the deferral does not name. -/
theorem butFor_restoreDeferredLink (as : AttributeList) :
    ButFor deferKeywords deferNames as (restoreDeferredLink as) :=
  (butFor_stylesheetRel (by decide)).trans ((butFor_unmarked as).mono (by decide) (by simp))

/-- A restored link is a style sheet. -/
theorem rel_restoreDeferredLink (as : AttributeList) :
    (restoreDeferredLink as).value .kRel = some (lit "stylesheet") := by
  rw [(butFor_unmarked as).value (by decide)]
  exact rel_stylesheetRel as

theorem butFor_removeAsyncCssMarkers (as : AttributeList) :
    ButFor [.kOnload] [lit "fetchpriority"] (restoreDeferredLink as) (removeAsyncCssMarkers as) :=
  ((ButFor.refl _).deleteKeyword (by simp)).deleteName (by simp)

/-- All that undoing a deferral touches. -/
theorem butFor_cleanup (as : AttributeList) :
    ButFor (.kOnload :: deferKeywords) (lit "fetchpriority" :: deferNames) as
      (removeAsyncCssMarkers as) :=
  ((butFor_restoreDeferredLink as).mono (by decide) (by decide)).trans
    ((butFor_removeAsyncCssMarkers as).mono (by decide) (by decide))

/-- The link with the preload and the saved media, before its own media goes. -/
def preloaded (as : AttributeList) : AttributeList :=
  (preloadRel as).add kMediaMarker (originalMedia (as.value .kMedia))

theorem butFor_preloadRel (as : AttributeList) : ButFor [.kRel, .kAs] [] as (preloadRel as) :=
  (((ButFor.refl as).setValue (by simp)).deleteKeyword (by simp)).add (by simp)

theorem butFor_preloaded (as : AttributeList) :
    ButFor [.kRel, .kAs] [kMediaMarker] as (preloaded as) :=
  ((butFor_preloadRel as).mono (by simp) (by simp)).add (by simp)

theorem butFor_async (as : AttributeList) :
    ButFor [.kMedia] [kAsyncMarker] (preloaded as) (deferLink as) := by
  rw [deferLink]
  split_ifs
  · exact ((ButFor.refl _).deleteKeyword (by simp)).add (by simp)
  · exact (ButFor.refl _).add (by simp)

/-- All that a deferral touches. -/
theorem butFor_deferLink (as : AttributeList) : ButFor deferKeywords deferNames as (deferLink as) :=
  ((butFor_preloaded as).mono (by decide) (by decide)).trans
    ((butFor_async as).mono (by decide) (by decide))

/-! ## The marker of a deferral -/

theorem hasName_eq_filter (as : AttributeList) (n : Bytes) :
    as.hasName n = false ↔ as.filter (·.name = n) = [] := by
  rw [hasName, findName, ← head?_filter, Option.isSome_eq_false_iff, Option.isNone_iff_eq_none,
    head?_eq_none_iff]

/-- Putting a link back takes one marker away. -/
theorem filter_async_restoreDeferredLink (as : AttributeList) :
    (restoreDeferredLink as).filter (·.name = kAsyncMarker) =
      (as.filter (·.name = kAsyncMarker)).tail := by
  have hrest : ∀ saved, ButFor deferKeywords [kMediaMarker] as
      ((addSavedMedia saved (((stylesheetRel as).deleteKeyword .kAs).deleteKeyword
        .kMedia)).deleteName kMediaMarker) :=
    fun saved => ((butFor_stylesheetRel (by decide)).trans
      ((butFor_restored as saved).mono (by decide) (by simp))).deleteName (.inr (by simp))
  rw [restoreDeferredLink, deleteName, filter_eraseP_self, (hrest _).filter_name (by decide)]

/-- A deferral adds one. -/
theorem filter_async_deferLink (as : AttributeList) :
    (deferLink as).filter (·.name = kAsyncMarker) = as.filter (·.name = kAsyncMarker) ++
      [⟨kAsyncMarker, some []⟩] := by
  have hmedia : ButFor deferKeywords [kMediaMarker] as
      (if (as.value .kMedia).isSome then (preloaded as).deleteKeyword .kMedia
        else preloaded as) := by
    split_ifs
    · exact ((butFor_preloaded as).mono (by decide) (by simp)).deleteKeyword (by decide)
    · exact (butFor_preloaded as).mono (by decide) (by simp)
  rw [show deferLink as = AttributeList.add (if (as.value .kMedia).isSome then _ else _)
    kAsyncMarker [] from rfl,
    AttributeList.add, filter_append, ← preloaded, hmedia.filter_name (by decide)]
  rfl

/-! ## The media of a link -/

variable (media : Option Bytes)

/-- The media a sheet applies under: the default, in any of its spellings, is none. -/
def effectiveMedia : Option Bytes := if mediaIsMeaningful media then media else none

/-- The values of a link's media attributes, and of those that save a media, in their order. -/
structure LinkMedia where
  media : List (Option Bytes)
  saved : List (Option Bytes)

/-- What a link says of its media. -/
def linkMedia (as : AttributeList) : LinkMedia :=
  ⟨(as.filter (·.keyword = .kMedia)).map (·.value),
    (as.filter (·.name = kMediaMarker)).map (·.value)⟩

namespace LinkMedia

variable (m : LinkMedia)

/-- The first attribute counts. -/
def current : Option Bytes := m.media.head?.join

/-- A deferral takes the media away, if it has a value, and saves it behind what is saved
already. -/
def deferred : LinkMedia :=
  ⟨if m.current.isSome then m.media.tail else m.media, m.saved ++ [some (originalMedia m.current)]⟩

/-- Putting a link back takes the first media away and adds what was saved first, unless that is a
default. -/
def restored : LinkMedia :=
  ⟨m.media.tail ++ if m.saved.head?.join.any fun v => v ≠ lit "all" ∧
    v ≠ [] then [m.saved.head?.join] else [], m.saved.tail⟩

end LinkMedia

/-- `media` is the first of the current values. -/
theorem value_eq_current (as : AttributeList) : as.value .kMedia = (linkMedia as).current := by
  rw [value, findKeyword, ← head?_filter, LinkMedia.current, linkMedia, head?_map]
  cases (as.filter (·.keyword = .kMedia)).head? <;> rfl

/-- The saved media is the first of the saved values. -/
theorem savedMedia_eq (as : AttributeList) : savedMedia as = (linkMedia as).saved.head?.join := by
  rw [savedMedia, findName, ← head?_filter, linkMedia, head?_map]
  cases (as.filter (·.name = kMediaMarker)).head? <;> rfl

/-- Restoring a link, on its media alone. -/
theorem linkMedia_restoreDeferredLink (as : AttributeList) :
    linkMedia (restoreDeferredLink as) = (linkMedia as).restored := by
  have hrel : ButFor [.kRel, .kAs] [] as ((stylesheetRel as).deleteKeyword .kAs) :=
    (butFor_stylesheetRel (by simp)).deleteKeyword (by simp)
  have hsaved : savedMedia ((stylesheetRel as).deleteKeyword .kAs) =
      (linkMedia as).saved.head?.join := by
    rw [savedMedia, hrel.findName (by decide), ← savedMedia, savedMedia_eq]
  have hmedia : (restoreDeferredLink as).filter (·.keyword = .kMedia) =
      (addSavedMedia ((linkMedia as).saved.head?.join)
        (((stylesheetRel as).deleteKeyword .kAs).deleteKeyword .kMedia)).filter
          (·.keyword = .kMedia) := by
    rw [restoreDeferredLink, (butFor_deleteMarkers [] _).filter_keyword (by decide), hsaved]
  have hmark : (restoreDeferredLink as).filter (·.name = kMediaMarker) =
      (as.filter (·.name = kMediaMarker)).tail := by
    have hasync (bs : AttributeList) : ButFor [] [kAsyncMarker] bs (bs.deleteName kAsyncMarker) :=
      (ButFor.refl bs).deleteName (by simp)
    have hrest (saved : Option Bytes) : ButFor deferKeywords [] as
        (addSavedMedia saved (((stylesheetRel as).deleteKeyword .kAs).deleteKeyword .kMedia)) :=
      (butFor_stylesheetRel (by decide)).trans
        ((butFor_restored as saved).mono (by decide) (by simp))
    rw [restoreDeferredLink, (hasync _).filter_name (by decide), deleteName, filter_eraseP_self,
      (hrest _).filter_name (by decide)]
  have hlist : (((stylesheetRel as).deleteKeyword .kAs).deleteKeyword .kMedia).filter
    (·.keyword = .kMedia) = (as.filter (·.keyword = .kMedia)).tail := by
    rw [deleteKeyword, filter_eraseP_self, hrel.filter_keyword (by decide)]
  rw [linkMedia, hmedia, hmark, LinkMedia.restored, addSavedMedia]
  split_ifs with hdefault
  · obtain ⟨v, hv⟩ := Option.isSome_iff_exists.1 (Option.isSome_of_any hdefault)
    rw [AttributeList.add, filter_append, hlist, hv]
    simp [Attribute.keyword, linkMedia]
  · rw [hlist]
    simp [linkMedia]

theorem linkMedia_removeAsyncCssMarkers (as : AttributeList) :
    linkMedia (removeAsyncCssMarkers as) = (linkMedia as).restored := by
  have hrest := butFor_removeAsyncCssMarkers as
  rw [linkMedia, hrest.filter_keyword (by decide), hrest.filter_name (by decide), ← linkMedia,
    linkMedia_restoreDeferredLink]

/-- Deferring a link, on its media alone. -/
theorem linkMedia_deferLink (as : AttributeList) :
    linkMedia (deferLink as) = (linkMedia as).deferred := by
  have hlast (bs : AttributeList) : ButFor [] [kAsyncMarker] bs (bs.add kAsyncMarker []) :=
    (ButFor.refl bs).add (by simp)
  have hmark : (deferLink as).filter (·.name = kMediaMarker) =
      as.filter (·.name = kMediaMarker) ++
        [⟨kMediaMarker, some (originalMedia (linkMedia as).current)⟩] := by
    rw [(butFor_async as).filter_name (by decide), preloaded, AttributeList.add, filter_append,
      (butFor_preloadRel as).filter_name (by decide), value_eq_current]
    rfl
  have hmedia : (deferLink as).filter (·.keyword = .kMedia) =
      if (linkMedia as).current.isSome then (as.filter (·.keyword = .kMedia)).tail
      else as.filter (·.keyword = .kMedia) := by
    rw [deferLink, (hlast _).filter_keyword (by decide), ← value_eq_current]
    split_ifs
    · rw [deleteKeyword, filter_eraseP_self, ← preloaded,
        (butFor_preloaded as).filter_keyword (by decide)]
    · rw [← preloaded, (butFor_preloaded as).filter_keyword (by decide)]
  rw [linkMedia, hmedia, hmark, LinkMedia.deferred]
  split_ifs <;> simp [linkMedia]

end PageSpeed.Html
