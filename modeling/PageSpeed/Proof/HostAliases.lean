import PageSpeed.Spec.HostAliases

/-!
# Worker and module use the same host aliases

* `readAliasLine_aliasLine`: a line that the file format carries is read back.
* `parseHostAliases_content`: if it carries them all, the module reads the worker's own map.
* `hostAliases_agree`: whatever file was there before, the two maps are the same just when the
  format carries every alias.
-/

namespace PageSpeed

open Wire List

/-- An alias that a line of the file can carry: no line breaks, and the source is neither a comment
nor the version key. -/
def Carried (entry : Bytes × Bytes) : Prop :=
  hasNewline entry.1 = false ∧ hasNewline entry.2 = false ∧ entry.1.head? ≠ some (ch '#') ∧
    entry.1 ≠ lit "version"

instance (entry : Bytes × Bytes) : Decidable (Carried entry) := inferInstanceAs (Decidable (_ ∧ _))

/-! ## The arguments -/

/-- What the worker takes from an argument. -/
structure AcceptedAlias (entry : Bytes × Bytes) : Prop where
  src : entry.1 ≠ []
  dst : entry.2 ≠ []
  equals : ch '=' ∉ entry.1
  nul : (0 : UInt8) ∉ entry.1 ∧ (0 : UInt8) ∉ entry.2

variable {entry : Bytes × Bytes}

/-- An argument that is parsed is acceptable. -/
theorem parseHostAlias_accepted {val : Bytes} (hnul : (0 : UInt8) ∉ val)
    (h : parseHostAlias val = some entry) : AcceptedAlias entry := by
  unfold parseHostAlias at h
  split at h
  · exact absurd h (by simp)
  rename_i eq heq
  split at h
  · exact absurd h (by simp)
  rename_i hbounds
  rw [not_or] at hbounds
  cases h
  obtain ⟨hsplit, hequals⟩ := find_byte_eq_some heq
  refine ⟨?_, ?_, hequals, fun hmem => hnul (mem_of_mem_take hmem),
    fun hmem => hnul (mem_of_mem_drop hmem)⟩
  · intro hnil
    have hlen := congrArg List.length hnil
    rw [length_take, length_nil] at hlen
    omega
  · intro hnil
    have hlen := congrArg List.length hnil
    rw [length_drop, length_nil] at hlen
    omega

variable {aliases : List (Bytes × Bytes)}

theorem parseHostAliasArguments_accepted {args : List Argument}
    (h : parseHostAliasArguments args = some aliases) : ∀ entry ∈ aliases, AcceptedAlias entry := by
  induction args generalizing aliases with
  | nil =>
    cases h
    exact fun entry hentry => absurd hentry not_mem_nil
  | cons arg args ih =>
    rw [parseHostAliasArguments, mapM_cons] at h
    obtain ⟨first, hfirst, h⟩ := Option.bind_eq_some_iff.1 h
    obtain ⟨rest, hrest, h⟩ := Option.bind_eq_some_iff.1 h
    cases h
    exact forall_mem_cons.2 ⟨parseHostAlias_accepted arg.property hfirst, ih hrest⟩

/-! ## Reading the lines -/

theorem hasNewline_eq_false {s : Bytes} : hasNewline s = false ↔ ch '\n' ∉ s ∧ ch '\r' ∉ s := by
  simp [hasNewline]

/-- A line is read back. -/
theorem readAliasLine_aliasLine (h : AcceptedAlias entry) (hcarried : Carried entry) :
    readAliasLine (aliasLine entry) = .entry entry.1 entry.2 := by
  obtain ⟨src, dst⟩ := entry
  obtain ⟨hsrc, hdst, hequals, hnul⟩ := h
  obtain ⟨-, hbreak, hhash, hversion⟩ := hcarried
  -- the line ends in the destination, so there is nothing to strip
  have hstrip : stripTrailingCr (aliasLine (src, dst)) = src ++ ch '=' :: dst := by
    have hlast : (src ++ ch '=' :: dst).getLast? ≠ some (ch '\r') := by
      rw [getLast?_append_of_ne_nil _ (by simp), getLast?_cons_of_ne_nil hdst]
      exact fun hcr => (hasNewline_eq_false.1 hbreak).2 (mem_of_getLast? hcr)
    rw [stripTrailingCr, aliasLine, if_neg hlast]
  have hhead : (src ++ ch '=' :: dst).head? ≠ some (ch '#') := by
    rwa [head?_append_of_ne_nil _ hsrc]
  have hdrop : (src ++ ch '=' :: dst).drop (src.length + 1) = dst := by
    rw [← drop_drop, drop_left, drop_one, tail_cons]
  simp only [readAliasLine, hstrip, find_byte hequals, take_left, hdrop]
  have hne : src ++ ch '=' :: dst ≠ [] := by simp
  rw [if_neg (not_or.2 ⟨hne, hhead⟩), if_neg (by simp [hnul]), if_neg hversion, if_pos ⟨hsrc, hdst⟩]

/-- So are all lines, the later ones winning. -/
theorem readAliasLines_entries (h : ∀ entry ∈ aliases, AcceptedAlias entry)
    (hcarried : ∀ entry ∈ aliases, Carried entry) (map : HostAliases) :
    readAliasLines (aliases.map aliasLine ++ [[]]) map =
      aliases.foldl (fun map entry => map.insert entry.1 entry.2) map := by
  induction aliases generalizing map with
  | nil => rfl
  | cons entry aliases ih =>
    obtain ⟨hfirst, hrest⟩ := forall_mem_cons.1 h
    obtain ⟨hcfirst, hcrest⟩ := forall_mem_cons.1 hcarried
    rw [map_cons, cons_append, readAliasLines, readAliasLine_aliasLine hfirst hcfirst]
    exact ih hrest hcrest _

/-- No entry of the module's map is a comment or the version key. -/
theorem readAliasLine_key {line key value : Bytes} (h : readAliasLine line = .entry key value) :
    key.head? ≠ some (ch '#') ∧ key ≠ lit "version" := by
  unfold readAliasLine at h
  dsimp only at h
  split at h
  · exact absurd h (by simp)
  rename_i hline
  split at h
  · exact absurd h (by simp)
  rename_i eq heq
  split at h
  · exact absurd h (by simp)
  split at h
  · split at h <;> exact absurd h (by simp)
  rename_i hversion
  split at h
  · rename_i hne
    cases h
    refine ⟨fun hhash => hline (.inr ?_), hversion⟩
    rw [(find_byte_eq_some heq).1, head?_append_of_ne_nil _ hne.1]
    exact hhash
  · exact absurd h (by simp)

/-- No key is a comment or the version. -/
theorem readAliasLines_keys (lines : List Bytes) (map : HostAliases) {key : Bytes}
    (h : key ∈ readAliasLines lines map) : key ∈ map ∨ key.head? ≠ some (ch '#') ∧
      key ≠ lit "version" := by
  induction lines generalizing map with
  | nil => exact .inl h
  | cons line lines ih =>
    rw [readAliasLines] at h
    cases hline : readAliasLine line with
    | skip =>
      rw [hline] at h
      exact ih map h
    | version v =>
      rw [hline] at h
      dsimp only at h
      split at h
      · exact absurd h (AList.notMem_empty key)
      · exact ih map h
    | entry k value =>
      rw [hline] at h
      rcases ih _ h with hmem | hkey
      · rw [AList.mem_insert] at hmem
        rcases hmem with rfl | hmem
        · exact .inr (readAliasLine_key hline)
        · exact .inl hmem
      · exact .inr hkey

/-! ## The two maps -/

theorem mem_workerHostAliases (h : entry ∈ aliases) : entry.1 ∈ workerHostAliases aliases := by
  have hkeep : ∀ (aliases : List (Bytes × Bytes)) (map : HostAliases) (key : Bytes), key ∈ map →
      key ∈ aliases.foldl (fun map entry => map.insert entry.1 entry.2) map := by
    intro aliases
    induction aliases with
    | nil => exact fun map key hkey => hkey
    | cons first aliases ih =>
      exact fun map key hkey => ih _ key (AList.mem_insert _ |>.2 (.inr hkey))
  unfold workerHostAliases
  generalize (∅ : HostAliases) = map
  induction aliases generalizing map with
  | nil => exact absurd h not_mem_nil
  | cons first aliases ih =>
    rcases mem_cons.1 h with rfl | h
    · exact hkeep aliases _ entry.1 (AList.mem_insert _ |>.2 (.inl rfl))
    · exact ih h _

/-- The file is its lines. -/
theorem hostAliasesContent_lines (aliases : List (Bytes × Bytes)) : hostAliasesContent aliases =
    (lit "# Written by pagespeed-worker. Do not edit." :: lit "version=1" ::
      aliases.map aliasLine).flatMap
      (· ++ [ch '\n']) := by
  rw [flatMap_cons, flatMap_cons, flatMap_map]
  simp only [hostAliasesContent, ← append_assoc]
  rfl

/-- If the format carries all the aliases, the module reads the worker's map. -/
theorem parseHostAliases_content (h : ∀ entry ∈ aliases, AcceptedAlias entry)
    (hcarried : ∀ entry ∈ aliases, Carried entry) :
    parseHostAliases (hostAliasesContent aliases) = workerHostAliases aliases := by
  have hlines : ∀ line ∈ lit "# Written by pagespeed-worker. Do not edit." :: lit "version=1" ::
      aliases.map aliasLine, ch '\n' ∉ line := by
    intro line hline
    rcases mem_cons.1 hline with rfl | hline
    · decide
    rcases mem_cons.1 hline with rfl | hline
    · decide
    obtain ⟨entry, hentry, rfl⟩ := mem_map.1 hline
    obtain ⟨hsrc, hdst, -, -⟩ := hcarried entry hentry
    simp only [aliasLine, mem_append, mem_cons, not_or]
    exact ⟨(hasNewline_eq_false.1 hsrc).1, by decide, (hasNewline_eq_false.1 hdst).1⟩
  have hcomment : readAliasLine (lit "# Written by pagespeed-worker. Do not edit.") =
      .skip := by decide
  have hversion : readAliasLine (lit "version=1") = .version 1 := by decide
  rw [parseHostAliases, hostAliasesContent_lines, splitOn_lines hlines, cons_append, cons_append,
    readAliasLines, hcomment, readAliasLines, hversion]
  exact readAliasLines_entries h hcarried ∅

theorem any_hasNewline_iff :
    (aliases.any fun entry => hasNewline entry.1 ∨ hasNewline entry.2) = false ↔
      ∀ entry ∈ aliases, hasNewline entry.1 = false ∧ hasNewline entry.2 = false := by
  simp [any_eq_false]

/-- **Worker and module use the same host aliases just when the file format carries them all.** For
every list of arguments the worker starts with, whose file is not too large, the map the module
reads is the worker's own, whatever file an earlier run left, just when no alias has a line break in
it and no source begins with a hash sign or is the version key. -/
theorem hostAliases_agree {args : List Argument} {aliases : List (Bytes × Bytes)}
    (hargs : parseHostAliasArguments args = some aliases)
    (hsize : (hostAliasesContent aliases).length ≤ kMaxHostAliasesFileSize) :
    (∀ file key, (moduleHostAliases (writeHostAliasesFile file aliases).1).lookup key =
      (workerHostAliases aliases).lookup key) ↔ ∀ entry ∈ aliases, Carried entry := by
  have haccepted := parseHostAliasArguments_accepted hargs
  constructor
  · intro h entry hentry
    have hworker := AList.lookup_isSome.2 (mem_workerHostAliases hentry)
    by_cases hbreaks : (aliases.any fun entry => hasNewline entry.1 ∨ hasNewline entry.2) = true
    · -- the file is not written: without one, the module has no aliases
      have hnone := h none entry.1
      rw [writeHostAliasesFile, if_pos hbreaks] at hnone
      rw [← hnone] at hworker
      exact absurd hworker (by simp [moduleHostAliases])
    · have hread := h none entry.1
      rw [writeHostAliasesFile, if_neg hbreaks, moduleHostAliases, if_pos hsize] at hread
      rw [← hread, AList.lookup_isSome] at hworker
      obtain ⟨hsrc, hdst⟩ := any_hasNewline_iff.1 (Bool.not_eq_true _ ▸ hbreaks) entry hentry
      obtain ⟨hhash, hversion⟩ :=
        (readAliasLines_keys _ _ hworker).resolve_left (AList.notMem_empty _)
      exact ⟨hsrc, hdst, hhash, hversion⟩
  · intro h file key
    have hbreaks :=
      any_hasNewline_iff.2 fun entry hentry => ⟨(h entry hentry).1, (h entry hentry).2.1⟩
    rw [writeHostAliasesFile, hbreaks]
    simp only [Bool.false_eq_true, if_false, moduleHostAliases, if_pos hsize]
    rw [parseHostAliases_content haccepted h]

/-- Two aliases of one host. -/
theorem hostAliases_agree_www : ∃ aliases,
    parseHostAliasArguments [⟨lit "www.a=a", by decide⟩, ⟨lit "cdn.a=a", by decide⟩] =
      some aliases ∧
      ∀ file key, (moduleHostAliases (writeHostAliasesFile file aliases).1).lookup key =
        (workerHostAliases aliases).lookup key := by
  have hargs : parseHostAliasArguments [⟨lit "www.a=a", by decide⟩, ⟨lit "cdn.a=a", by decide⟩] =
      some [(lit "www.a", lit "a"), (lit "cdn.a", lit "a")] := rfl
  exact ⟨_, hargs, (hostAliases_agree hargs (by decide)).2 (by decide)⟩

/-- An alias of the host `version` whose destination begins with a 2 takes all the aliases from the
module. -/
theorem hostAliases_version : ∃ aliases,
    parseHostAliasArguments [⟨lit "www.a=a", by decide⟩, ⟨lit "version=2.a", by decide⟩] =
      some aliases ∧ (hostAliasesContent aliases).length ≤ kMaxHostAliasesFileSize ∧
      ∀ file, (moduleHostAliases (writeHostAliasesFile file aliases).1).lookup
        (lit "www.a") = none ∧
        (workerHostAliases aliases).lookup (lit "www.a") = some (lit "a") := by
  have hargs : parseHostAliasArguments
    [⟨lit "www.a=a", by decide⟩, ⟨lit "version=2.a", by decide⟩] =
      some [(lit "www.a", lit "a"), (lit "version", lit "2.a")] := rfl
  exact ⟨_, hargs, by decide, fun _ => ⟨rfl, rfl⟩⟩

end PageSpeed
