import PageSpeed.Spec.Cooldowns

/-!
# Reading internal keys back

Different names have different keys (`composeInternalKey_inj`). The list of cooldowns reads the key
of a name with a site back (`listCooldown_own`), and that of a name without one unless it happens to
end like a key with a site: then the key is cut inside the URL and what is reported, if anything, is
about a shorter URL (`listCooldown_imitates`).
-/

namespace PageSpeed

open Wire List ResourceName

variable {r r' : ResourceName} {url hostname scheme key : Bytes} {now : ℤ} {entry : CooldownEntry}

/-! ## Keys -/

/-- The key without a site. -/
def ResourceName.base (r : ResourceName) : Bytes :=
  r.url ++ ch '|' :: (r.hostname ++ ch '|' :: r.scheme)

theorem composeInternalKey_unsited (h : r.site = []) : composeInternalKey r = r.base := by
  simp [composeInternalKey, base, h, lit]

/-- The key with a site. -/
theorem composeInternalKey_sited (h : r.site ≠ []) :
    composeInternalKey r = r.base ++ ch '|' :: (lit "s=" ++ r.site) := by
  simp [composeInternalKey, base, h, lit]

namespace ResourceName.Keyable

theorem pipe_scheme (h : r.Keyable) : ch '|' ∉ r.scheme := by
  rcases h.scheme with hs | hs <;> rw [hs] <;> decide

theorem pipe_site (h : r.Keyable) : ch '|' ∉ r.site := by
  rcases h.site with hs | hs
  · simp [hs]
  · intro hmem
    have hhex := all_eq_true.1 (of_decide_eq_true hs).2 _ hmem
    revert hhex
    decide

theorem length_site (h : r.Keyable) (hne : r.site ≠ []) : r.site.length = kSiteIdChars := by
  rcases h.site with hs | hs
  · exact absurd hs hne
  · exact (of_decide_eq_true hs).1

/-- No scheme looks like the tag of a site. -/
theorem scheme_ne (h : r.Keyable) (rest : Bytes) : r.scheme ≠ lit "s=" ++ rest := by
  intro heq
  have hhead : r.scheme.head? = some (ch 's') := by
    rw [heq]
    rfl
  rcases h.scheme with hs | hs <;> rw [hs] at hhead <;> exact absurd hhead (by decide)

end ResourceName.Keyable

/-- A key without its site determines the name. -/
theorem base_inj (h : r.Keyable) (h' : r'.Keyable) (heq : r.base = r'.base) :
    r.url = r'.url ∧ r.hostname = r'.hostname ∧ r.scheme = r'.scheme := by
  have hsplit : (r.url ++ ch '|' :: r.hostname) ++ ch '|' :: r.scheme =
      (r'.url ++ ch '|' :: r'.hostname) ++ ch '|' :: r'.scheme := by
    simpa [base] using heq
  obtain ⟨hinit, hscheme⟩ := last_inj h.pipe_scheme h'.pipe_scheme hsplit
  obtain ⟨hurl, hhost⟩ := last_inj h.hostname h'.hostname hinit
  exact ⟨hurl, hhost, hscheme⟩

/-- Behind the last pipe of a key is a scheme or a site. -/
theorem base_ne_sited (h : r.Keyable) (h' : r'.Keyable) :
    r.base ≠ r'.base ++ ch '|' :: (lit "s=" ++ r'.site) := by
  intro heq
  have htag : ch '|' ∉ lit "s=" ++ r'.site := by
    rw [mem_append, not_or]
    exact ⟨by decide, h'.pipe_site⟩
  have hsplit : (r.url ++ ch '|' :: r.hostname) ++ ch '|' :: r.scheme = r'.base ++
      ch '|' :: (lit "s=" ++ r'.site) := by
    simpa [base] using heq
  exact h.scheme_ne r'.site (last_inj h.pipe_scheme htag hsplit).2

/-- **Different names have different keys.** -/
theorem composeInternalKey_inj (h : r.Keyable) (h' : r'.Keyable)
    (heq : composeInternalKey r = composeInternalKey r') :
    r = r' := by
  have hname : ∀ {s s' : ResourceName}, s.url = s'.url ∧ s.hostname = s'.hostname ∧
    s.scheme = s'.scheme → s.site = s'.site → s = s' := by
    rintro ⟨⟩ ⟨⟩ ⟨rfl, rfl, rfl⟩ rfl
    rfl
  by_cases hs : r.site = [] <;> by_cases hs' : r'.site = []
  · rw [composeInternalKey_unsited hs, composeInternalKey_unsited hs'] at heq
    exact hname (base_inj h h' heq) (hs.trans hs'.symm)
  · rw [composeInternalKey_unsited hs, composeInternalKey_sited hs'] at heq
    exact absurd heq (base_ne_sited h h')
  · rw [composeInternalKey_sited hs, composeInternalKey_unsited hs'] at heq
    exact absurd heq.symm (base_ne_sited h' h)
  · rw [composeInternalKey_sited hs, composeInternalKey_sited hs'] at heq
    have hlen : (ch '|' :: (lit "s=" ++ r.site)).length =
        (ch '|' :: (lit "s=" ++ r'.site)).length := by
      simp [h.length_site hs, h'.length_site hs']
    obtain ⟨hbase, htag⟩ := append_inj' heq hlen
    rw [cons.injEq, append_right_inj] at htag
    exact hname (base_inj h h' hbase) htag.2

/-! ## Dropping the site and splitting -/

/-- A key that ends like one with a site is cut. -/
theorem dropSite_tagged {before rest : Bytes} (hne : before ≠ [])
    (hlen : rest.length = kSiteIdChars) :
    dropSite (before ++ lit "|s=" ++ rest) = before := by
  have hpos := length_pos_of_ne_nil hne
  have htag : (lit "|s=").length = 3 := by decide
  have hcut : (before ++ lit "|s=" ++ rest).length - kSiteSuffix = before.length := by
    rw [length_append, length_append, htag, hlen, kSiteSuffix]
    omega
  have hlong : (before ++ lit "|s=" ++ rest).length > kSiteSuffix := by omega
  have hmark : ((before ++ lit "|s=" ++ rest).drop before.length).take 3 = lit "|s=" := by
    rw [append_assoc, drop_left, ← htag, take_left]
  unfold dropSite
  rw [hcut, if_pos ⟨hlong, hmark⟩, append_assoc, take_left]

/-- Any other key is left as it is. -/
theorem dropSite_of_not_tagged
    (h : ¬ ∃ before rest, before ≠ [] ∧ rest.length = kSiteIdChars ∧ key = before ++
      lit "|s=" ++ rest) :
    dropSite key = key := by
  refine if_neg fun ⟨hlong, hmark⟩ => h ?_
  refine ⟨key.take (key.length - kSiteSuffix), key.drop (key.length - kSiteSuffix + 3), ?_, ?_, ?_⟩
  · refine ne_nil_of_length_pos ?_
    rw [length_take]
    omega
  · rw [length_drop]
    unfold kSiteSuffix at *
    omega
  · rw [← hmark, ← drop_drop, append_assoc, take_append_drop, take_append_drop]

/-- Such a key is split at its last two bars. -/
theorem splitKey_base (hhost : ch '|' ∉ hostname) (hscheme : ch '|' ∉ scheme) :
    splitKey (url ++ ch '|' :: (hostname ++ ch '|' :: scheme)) = some (url, hostname, scheme) := by
  have hlast : rfind (ch '|') (url ++ ch '|' :: (hostname ++ ch '|' :: scheme)) =
      some (url.length + 1 + hostname.length) := by
    have hsplit := rfind_append_cons hscheme (a := url ++ ch '|' :: hostname)
    rw [append_assoc, cons_append] at hsplit
    rw [hsplit]
    simp only [length_append, length_cons]
    congr 1
    omega
  have htake : (url ++ ch '|' :: (hostname ++ ch '|' :: scheme)).take
    (url.length + 1 + hostname.length) = url ++ ch '|' :: hostname := by
    rw [← cons_append, ← append_assoc]
    exact take_left' (by simp only [length_append, length_cons]; omega)
  unfold splitKey
  rw [hlast]
  dsimp only
  rw [if_neg (by omega), htake, rfind_append_cons hhost]
  have hafter : (url ++ ch '|' :: (hostname ++ ch '|' :: scheme)).drop (url.length + 1) =
      hostname ++ ch '|' :: scheme := by
    rw [drop_length_add_append]
    rfl
  have hrest : (url ++ ch '|' :: (hostname ++ ch '|' :: scheme)).drop
      (url.length + 1 + hostname.length + 1) = scheme := by
    rw [add_assoc, ← drop_drop, hafter, drop_length_add_append]
    rfl
  dsimp only
  rw [if_neg (by omega), hafter, hrest, take_left, take_left' (by omega)]

/-- What is reported for a key is about a shorter URL. -/
theorem length_url_lt_of_splitKey (h : splitKey key = some (url, hostname, scheme)) :
    url.length < key.length := by
  unfold splitKey at h
  cases hscheme : rfind (ch '|') key with
  | none => simp [hscheme] at h
  | some schemeSep =>
    rw [hscheme] at h
    dsimp only at h
    cases hhost : rfind (ch '|') (if schemeSep = 0 then key else key.take schemeSep) with
    | none => simp [hhost] at h
    | some hostSep =>
      rw [hhost] at h
      obtain ⟨rfl, -⟩ := Prod.mk.injEq .. ▸ Option.some.inj h
      have hlt : hostSep < key.length := by
        refine lt_of_lt_of_le (rfind_lt hhost) ?_
        split_ifs
        · exact le_rfl
        · exact length_take_le' ..
      rw [length_take]
      omega

/-! ## The list -/

/-- The cut of a key without a site is inside the URL. -/
theorem length_le_of_imitates {before rest : Bytes} (h : r.Keyable)
    (heq : r.base = before ++ ch '|' :: (lit "s=" ++ rest)) : before.length ≤ r.url.length := by
  rcases append_eq_append_iff.1 heq with ⟨mid, hbefore, hmid⟩ | ⟨mid, hurl, -⟩
  · cases mid with
    | nil => simp [hbefore]
    | cons x mid =>
      -- the pipe of the tag is behind the URL, so it is the one before the scheme
      rw [cons_append, cons.injEq] at hmid
      rcases append_eq_append_iff.1 hmid.2 with ⟨gap, -, hgap⟩ | ⟨gap, hhost, hgap⟩
      · cases gap with
        | nil =>
          rw [nil_append, cons.injEq] at hgap
          exact absurd hgap.2 (h.scheme_ne rest)
        | cons y gap =>
          rw [cons_append, cons.injEq] at hgap
          refine absurd ?_ h.pipe_scheme
          rw [hgap.2]
          simp
      · cases gap with
        | nil =>
          rw [nil_append, cons.injEq] at hgap
          exact absurd hgap.2.symm (h.scheme_ne rest)
        | cons y gap =>
          rw [cons_append, cons.injEq] at hgap
          refine absurd ?_ h.hostname
          rw [hhost, ← hgap.1]
          simp
  · rw [hurl, length_append]
    omega

/-- The entry shows its own name if its site is cut off. -/
theorem listCooldown_of_drop (h : r.Keyable) (hactive : now < entry.expiry)
    (hdrop : dropSite (composeInternalKey r) = r.base) :
    listCooldown now (composeInternalKey r) entry =
      some (entry.listed now r.url r.hostname r.scheme) := by
  unfold listCooldown
  rw [if_neg (not_le.2 hactive), hdrop, base, splitKey_base h.hostname h.pipe_scheme]
  rfl

/-- A key that does not imitate one with a site is read back. -/
theorem listCooldown_own (h : r.Keyable) (hactive : now < entry.expiry) (hown : ¬ r.ImitatesSite) :
    listCooldown now (composeInternalKey r) entry =
      some (entry.listed now r.url r.hostname r.scheme) := by
  refine listCooldown_of_drop h hactive ?_
  by_cases hs : r.site = []
  · rw [composeInternalKey_unsited hs]
    refine dropSite_of_not_tagged fun ⟨before, rest, hne, hlen, heq⟩ =>
      hown ⟨hs, before, rest, hne, hlen, ?_⟩
    simpa [base, lit] using heq
  · have hne : r.base ≠ [] := by simp [base]
    have hkey : composeInternalKey r = r.base ++ lit "|s=" ++ r.site := by
      rw [composeInternalKey_sited hs, append_assoc]
      rfl
    rw [hkey, dropSite_tagged hne (h.length_site hs)]

/-- A key that imitates one with a site is reported under a shorter URL, if at all. -/
theorem listCooldown_imitates (h : r.Keyable) (himitates : r.ImitatesSite) :
    ∀ e ∈ listCooldown now (composeInternalKey r) entry, e.url.length < r.url.length := by
  obtain ⟨hs, before, rest, hne, hlen, heq⟩ := himitates
  have hbase : r.base = before ++ lit "|s=" ++ rest := by simpa [base, lit] using heq
  have hle : before.length ≤ r.url.length := by
    have htag : r.base = before ++ ch '|' :: (lit "s=" ++ rest) := by simpa [lit] using hbase
    exact length_le_of_imitates h htag
  intro e he
  unfold listCooldown at he
  split_ifs at he with hexpired
  · simp at he
  · rw [composeInternalKey_unsited hs, hbase, dropSite_tagged hne hlen] at he
    obtain ⟨⟨url, hostname, scheme⟩, hsplit, rfl⟩ := Option.mem_map.1 he
    have hlt := length_url_lt_of_splitKey hsplit
    exact lt_of_lt_of_le hlt hle

/-- A list made by a function that may fail or lose weight is the whole list only when it did
neither. -/
theorem perm_map_iff {σ τ : Type} {f : σ → Option τ} {g : σ → τ} (weight : τ → ℕ) {l : List σ}
    (h : ∀ x ∈ l, f x = some (g x) ∨ ∀ y ∈ f x, weight y < weight (g x)) :
    (l.filterMap f).Perm (l.map g) ↔ ∀ x ∈ l, f x = some (g x) := by
  constructor
  · intro hperm
    -- each result counts one and its weight, a failure nothing
    let counted : Option τ → ℕ := fun o => (o.toList.map fun y => weight y + 1).sum
    have hlt : ∀ x ∈ l, f x ≠ some (g x) → counted (f x) < counted (some (g x)) := by
      intro x hx hne
      have hweight := (h x hx).resolve_left hne
      cases hf : f x with
      | none => simp [counted]
      | some y =>
        have hy := hweight y hf
        simp only [counted, Option.toList_some, map_cons, map_nil, sum_cons, sum_nil]
        omega
    have hle : ∀ x ∈ l, counted (f x) ≤ counted (some (g x)) := by
      intro x hx
      by_cases hfx : f x = some (g x)
      · rw [hfx]
      · exact (hlt x hx hfx).le
    have hsum : (l.map fun x => counted (f x)).sum = (l.map fun x => counted (some (g x))).sum := by
      have hw := (hperm.map fun y => weight y + 1).sum_eq
      rw [filterMap_eq_flatMap_toList, map_flatMap, List.flatMap, sum_flatten, map_map,
        map_map] at hw
      simpa [counted, Function.comp_def] using hw
    by_contra hnot
    push Not at hnot
    obtain ⟨x, hx, hne⟩ := hnot
    exact absurd hsum (sum_lt_sum _ _ hle ⟨x, hx, hlt x hx hne⟩).ne
  · intro hall
    have heq : l.filterMap f = l.map g := by
      rw [← filterMap_eq_map]
      exact filterMap_congr hall
    rw [heq]

/-- What is over is not listed. -/
theorem listActiveCooldowns_eq (now : ℤ) (table : List (KeyedName × CooldownEntry)) :
    listActiveCooldowns now (table.map fun c => (composeInternalKey c.1.val, c.2)) =
      (table.filter fun c => now < c.2.expiry).filterMap fun c =>
        listCooldown now (composeInternalKey c.1.val) c.2 := by
  unfold listActiveCooldowns
  rw [filterMap_map, filterMap_filter]
  refine filterMap_congr fun c _ => ?_
  by_cases hactive : now < c.2.expiry
  · simp [hactive]
  · simp [hactive, listCooldown]

/-- **Different names have different keys, and every active cooldown is listed once under its own
name** exactly when none of them is under a key without a site that ends like one with a site. -/
theorem listActiveCooldowns_iff (now : ℤ) (table : List (KeyedName × CooldownEntry)) :
    (∀ r r' : KeyedName, composeInternalKey r.val = composeInternalKey r'.val → r = r') ∧
      ((listActiveCooldowns now (table.map fun c => (composeInternalKey c.1.val, c.2))).Perm
          ((table.filter fun c => now < c.2.expiry).map (ownEntry now)) ↔
        ∀ c ∈ table, now < c.2.expiry → ¬ c.1.val.ImitatesSite) := by
  refine ⟨fun r r' heq => Subtype.ext (composeInternalKey_inj r.2 r'.2 heq), ?_⟩
  have hactive : ∀ c ∈ table.filter (fun c => now < c.2.expiry), now < c.2.expiry :=
    fun c hc => of_decide_eq_true (mem_filter.1 hc).2
  have hcases : ∀ c ∈ table.filter (fun c => now < c.2.expiry),
      listCooldown now (composeInternalKey c.1.val) c.2 = some (ownEntry now c) ∨
      ∀ e ∈ listCooldown now (composeInternalKey c.1.val) c.2,
        e.url.length < (ownEntry now c).url.length := by
    intro c hc
    by_cases himitates : c.1.val.ImitatesSite
    · exact .inr (listCooldown_imitates c.1.2 himitates)
    · exact .inl (listCooldown_own c.1.2 (hactive c hc) himitates)
  rw [listActiveCooldowns_eq, perm_map_iff (fun e => e.url.length) hcases]
  constructor
  · intro hall c hc hlive himitates
    have hown := hall c (mem_filter.2 ⟨hc, decide_eq_true hlive⟩)
    exact (listCooldown_imitates c.1.2 himitates _ hown).ne rfl
  · intro hall c hc
    exact listCooldown_own c.1.2 (hactive c hc) (hall c (mem_filter.1 hc).1 (hactive c hc))

/-- A URL with `|s=` so far before the end of the key that the hostname and the scheme fill up the
length of a site. -/
def imitating : KeyedName where
  val := ⟨lit "/a|s=" ++ List.replicate 57 (ch 'x'), lit "h", lit "http", []⟩
  property := ⟨by decide, by decide, .inl rfl⟩

/-- Its cooldown is not listed at all. -/
theorem not_listActiveCooldowns_imitating :
    ¬ (listActiveCooldowns 0 ([(imitating, ⟨0, 60000000000, .kWriteFailure⟩)].map
        fun c : KeyedName × CooldownEntry => (composeInternalKey c.1.val, c.2))).Perm
      (([(imitating, ⟨0, 60000000000, .kWriteFailure⟩)].filter
        fun c : KeyedName × CooldownEntry => 0 < c.2.expiry).map (ownEntry 0)) := by
  decide +kernel

end PageSpeed
