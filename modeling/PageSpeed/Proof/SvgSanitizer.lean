import PageSpeed.Spec.SvgSanitizer
import PageSpeed.Wire.Split

/-!
# The loops of the SVG sanitizer end

* `parse_eof`: the parser reads the input to its end, or stops at a limit.
* `removeEmptyGroups_stable`: the scans for empty groups end where one more finds none.
-/

namespace PageSpeed.Svg

open Wire List Nat

/-! ## The parser reads on -/

theorem skipWS_length_le (s : Bytes) : (skipWS s).length ≤ s.length :=
  (dropWhile_sublist _).length_le

theorem skipPast_length_le (c : UInt8) (s : Bytes) : (skipPast c s).length ≤ s.length :=
  (tail_sublist _ |>.trans (dropWhile_sublist _)).length_le

theorem skipDeclaration_length_le (depth : ℤ) (s : Bytes) :
    (skipDeclaration depth s).length ≤ s.length := by
  induction s generalizing depth with
  | nil => exact le_rfl
  | cons c s ih =>
    rw [skipDeclaration, length_cons]
    split_ifs
    · exact (ih _).trans (le_succ _)
    · exact (ih _).trans (le_succ _)
    · exact le_succ _
    · exact (ih _).trans (le_succ _)

theorem skipTo_length_le (mark s : Bytes) : (skipTo mark s).length ≤ s.length := by
  unfold skipTo
  split
  · exact length_drop ▸ sub_le _ _
  · exact zero_le _

/-- A value never takes more than there is. -/
theorem parseAttrValue_length_le (s : Bytes) : (parseAttrValue s).2.length ≤ s.length := by
  cases s with
  | nil => exact le_rfl
  | cons quote rest =>
    rw [parseAttrValue]
    split_ifs
    · exact (skipPast_length_le quote rest).trans (le_succ _)
    · exact (dropWhile_sublist _).length_le

variable {c : UInt8}

/-- Behind a name there is less left. -/
theorem dropWhile_length_lt {p : UInt8 → Bool} (rest : Bytes) (hc : p c) :
    ((c :: rest).dropWhile p).length < (c :: rest).length := by
  rw [dropWhile_cons_of_pos hc]
  exact lt_succ_of_le (dropWhile_sublist _).length_le

theorem isNameChar_of_start (h : ¬ (isNameStartChar c = false ∧ c ≠ ch '-')) : isNameChar c := by
  have hstart : ∀ c, ¬ (isNameStartChar c = false ∧ c ≠ ch '-') → isNameChar c := by decide +kernel
  exact hstart c h

/-- A round ends the tag, or the next one goes on with less. -/
theorem parseAttributesUpTo_round (attrs : List AttrInfo) (s : Bytes) :
    (∃ r : TagParseResult × Bytes, r.2.length ≤ s.length ∧ ∀ n,
      parseAttributesUpTo (n + 1) attrs s = r) ∨
    ∃ attrs' left, left.length < s.length ∧ ∀ n, parseAttributesUpTo (n + 1) attrs s =
      parseAttributesUpTo n attrs' left := by
  have hws := skipWS_length_le s
  simp only [parseAttributesUpTo]
  cases hs : skipWS s with
  | nil => exact .inl ⟨_, zero_le _, fun _ => rfl⟩
  | cons c rest =>
    rw [hs, length_cons] at hws
    simp only
    split_ifs with _ _ hstart
    · exact .inl ⟨_, (skipPast_length_le _ rest).trans (by omega), fun _ => rfl⟩
    · exact .inl ⟨(_, rest), by simp only; omega, fun _ => rfl⟩
    · exact .inr ⟨_, rest, by omega, fun _ => rfl⟩
    · have hname := dropWhile_length_lt rest (isNameChar_of_start hstart)
      have hafter := skipWS_length_le ((c :: rest).dropWhile isNameChar)
      rw [length_cons] at hname
      cases hleft : skipWS ((c :: rest).dropWhile isNameChar) with
      | nil => exact .inr ⟨_, [], by rw [length_nil]; omega, fun _ => rfl⟩
      | cons d left =>
        rw [hleft, length_cons] at hafter
        have hvalue := parseAttrValue_length_le (skipWS left)
        have hblank := skipWS_length_le left
        simp only
        split_ifs
        · exact .inr ⟨_, _, by omega, fun _ => rfl⟩
        · exact .inr ⟨_, d :: left, by rw [length_cons]; omega, fun _ => rfl⟩

/-- What is left behind a tag is not longer. -/
theorem parseAttributesUpTo_length_le (n : ℕ) (attrs : List AttrInfo) (s : Bytes) :
    (parseAttributesUpTo n attrs s).2.length ≤ s.length := by
  induction n generalizing attrs s with
  | zero => exact le_rfl
  | succ n ih =>
    rcases parseAttributesUpTo_round attrs s with ⟨r, hle, hr⟩ | ⟨attrs', left, hlt, hr⟩ <;> rw [hr]
    · exact hle
    · exact (ih _ _).trans hlt.le

namespace ParseState

variable (config : SvgSanitizeConfig) (st : ParseState) (s : Bytes)

/-- An end tag is read up to its bracket. -/
theorem closeTag_input :
    (st.closeTag s).input = skipPast (ch '>') (s.dropWhile isNameChar) := by
  unfold closeTag
  simp only
  split_ifs <;> rfl

/-- A start tag is read up to the end of its attributes. -/
theorem openTag_input :
    (st.openTag config s).input = (parseAttributes (s.dropWhile isNameChar)).2 := by
  unfold openTag
  simp only
  split_ifs <;> rfl

/-- What a round does: it copies a character, drops a comment or a declaration, or reads a tag. -/
theorem round_cases {rest : Bytes} (h : st.input = c :: rest) :
    st.round config = { st with
      input := rest, output := if st.skipDepth = 0 then st.output ++ [c] else st.output } ∨
    c = ch '<' ∧
      ((∃ left : Bytes, left.length ≤ rest.length ∧ st.round config = { st with input := left }) ∨
      st.round config = st.closeTag (rest.drop 1) ∨ st.round config = st.openTag config rest) := by
  have hdrop (n : ℕ) : (rest.drop n).length ≤ rest.length := length_drop ▸ sub_le _ _
  unfold round
  simp only [h]
  by_cases hc : c = ch '<'
  swap
  · rw [if_pos hc]
    exact .inl rfl
  rw [if_neg (not_not.2 hc), hc]
  split
  · exact .inr ⟨rfl, .inl ⟨_, (skipTo_length_le _ _).trans (hdrop 3), rfl⟩⟩
  split
  · exact .inr ⟨rfl, .inl ⟨_, (skipTo_length_le _ _).trans (hdrop 8), rfl⟩⟩
  split
  · exact .inr ⟨rfl, .inl ⟨_, (skipDeclaration_length_le _ _).trans (hdrop 1), rfl⟩⟩
  split
  · exact .inr ⟨rfl, .inl ⟨_, (skipTo_length_le _ _).trans (hdrop 1), rfl⟩⟩
  split
  · exact .inr ⟨rfl, .inr (.inl rfl)⟩
  split
  · exact .inl rfl
  · exact .inr ⟨rfl, .inr (.inr rfl)⟩

/-- A round takes a character at least. -/
theorem round_length_lt (h : st.input ≠ []) : (st.round config).input.length < st.input.length := by
  obtain ⟨c, rest, hinput⟩ := exists_cons_of_ne_nil h
  have hname (s : Bytes) : (s.dropWhile isNameChar).length ≤ s.length :=
    (dropWhile_sublist _).length_le
  rw [hinput, length_cons]
  refine lt_succ_of_le ?_
  rcases round_cases config st hinput with hround | ⟨-, ⟨left, hleft, hround⟩ | hround | hround⟩
    <;> rw [hround]
  · exact hleft
  · rw [closeTag_input]
    exact (skipPast_length_le _ _).trans ((hname _).trans (length_drop ▸ sub_le _ _))
  · rw [openTag_input]
    exact (parseAttributesUpTo_length_le _ _ _).trans (hname _)

/-- As many rounds as characters reach the end. -/
theorem parseUpTo_eof (n : ℕ) (st : ParseState) (hn : st.input.length ≤ n) :
    (parseUpTo config n st).eof := by
  induction n generalizing st with
  | zero =>
    have hinput := length_eq_zero_iff.1 (le_zero.1 hn)
    simp [parseUpTo, eof, hinput]
  | succ n ih =>
    rw [parseUpTo]
    split_ifs with heof
    · exact heof
    · have hinput : st.input ≠ [] := by
        intro hnil
        simp [eof, hnil] at heof
      have := round_length_lt config st hinput
      exact ih _ (by omega)

end ParseState

variable (config : SvgSanitizeConfig)

/-- **The parser reads the input to its end**, or stops at a limit. -/
theorem parse_eof (input : Bytes) : (parse config input).eof :=
  ParseState.parseUpTo_eof config _ _ le_rfl

/-! ## Empty groups -/

variable {s : Bytes}

/-- A text up to the first of a character, and what is behind it. -/
theorem takeWhile_ne_split (h : s.takeWhile (· ≠ c) ≠ s) :
    s = s.takeWhile (· ≠ c) ++ c :: s.drop ((s.takeWhile (· ≠ c)).length + 1) := by
  have hmem : c ∈ s := by
    by_contra hno
    exact h (takeWhile_ne_of_not_mem hno)
  obtain ⟨a, b, rfl, ha⟩ := eq_append_cons_of_mem hmem
  rw [takeWhile_until ha, ← drop_drop, drop_left, drop_one, tail_cons]

/-- What a removed group looks like: a tag up to its first `>`, and maybe blanks and the end of the
group. -/
theorem skipEmptyGroup_spec {s left : Bytes} (h : skipEmptyGroup s = some left) : ∃ next tag after,
    (next = ch '>' ∨ next = ch ' ') ∧ [ch '<', ch 'g', next] <+: s ∧
      s = ch '<' :: ch 'g' :: (tag ++ ch '>' :: after) ∧
      ch '>' ∉ tag ∧ (left = after ∨ ∃ ws, (∀ c ∈ ws, isWhitespace c) ∧ after = ws ++
        (lit "</g>" ++ left)) := by
  unfold skipEmptyGroup at h
  simp only at h
  -- the two ways out without a group: another tag, or one that does not end
  by_cases hg : lit "<g>" <+: s ∨ lit "<g " <+: s
  swap
  · rw [if_neg hg] at h
    cases h
  by_cases htag : s.takeWhile (· ≠ ch '>') = s
  · rw [if_pos hg, if_pos htag] at h
    cases h
  rw [if_pos hg, if_neg htag] at h
  obtain ⟨next, hnext, t, ht⟩ : ∃ next, (next = ch '>' ∨ next = ch ' ') ∧
      [ch '<', ch 'g', next] <+: s := by
    rcases hg with hg | hg
    · exact ⟨_, .inl rfl, hg⟩
    · exact ⟨_, .inr rfl, hg⟩
  have hsplit := takeWhile_ne_split htag
  generalize s.drop ((s.takeWhile (· ≠ ch '>')).length + 1) = after at h hsplit
  have hread : s.takeWhile (· ≠ ch '>') = ch '<' :: ch 'g' ::
      (next :: t).takeWhile (· ≠ ch '>') := by
    rw [← ht]
    rfl
  rw [hread] at hsplit
  refine ⟨next, _, after, hnext, ⟨t, ht⟩, hsplit, ?_, ?_⟩
  · intro hmem
    simpa using mem_takeWhile_imp hmem
  · -- closed in its own tag, or by an end tag behind blanks
    split_ifs at h with hself hinner
    · exact .inl (Option.some.inj h).symm
    · obtain ⟨u, hu⟩ := hinner
      rw [← hu] at h
      obtain rfl : u = left := Option.some.inj h
      refine .inr ⟨after.takeWhile isWhitespace, fun c hc => mem_takeWhile_imp hc, ?_⟩
      rw [hu, skipWS, takeWhile_append_dropWhile]

/-- A scan only leaves characters out. -/
theorem removeGroupsOnce_sublist (n : ℕ) (s : Bytes) : (removeGroupsOnce n s).Sublist s := by
  induction n generalizing s with
  | zero => exact nil_sublist s
  | succ n ih =>
    cases s with
    | nil => exact List.Sublist.refl []
    | cons c rest =>
      rw [removeGroupsOnce]
      cases hskip : skipEmptyGroup (c :: rest) with
      | none => exact (ih rest).cons_cons c
      | some left =>
        obtain ⟨next, tag, after, -, -, hs, -, hleft⟩ := skipEmptyGroup_spec hskip
        have hafter : left.Sublist after := by
          rcases hleft with rfl | ⟨ws, -, rfl⟩
          · exact List.Sublist.refl _
          · exact (sublist_append_right _ _).trans (sublist_append_right _ _)
        rw [hs]
        exact (ih left).trans (hafter.trans
          (((sublist_cons_self _ _).trans (sublist_append_right _ _)).cons _ |>.cons _))

/-- Scans are made until one changes nothing. -/
theorem removeEmptyGroups_stable (s : Bytes) :
    removeGroupsOnce (removeEmptyGroups s).length (removeEmptyGroups s) = removeEmptyGroups s := by
  suffices h : ∀ n s, s.length ≤ n →
    removeGroupsOnce (removeGroupsUpTo n s).length (removeGroupsUpTo n s) =
      removeGroupsUpTo n s from
    h s.length s le_rfl
  intro n
  induction n with
  | zero =>
    intro s hs
    obtain rfl := length_eq_zero_iff.1 (Nat.le_zero.1 hs)
    rfl
  | succ n ih =>
    intro s hs
    rw [removeGroupsUpTo]
    split_ifs with hsame
    · exact hsame
    · have hshort : (removeGroupsOnce s.length s).length < s.length :=
        lt_of_le_of_ne (removeGroupsOnce_sublist _ s).length_le fun hlen =>
          hsame ((removeGroupsOnce_sublist _ s).eq_of_length hlen)
      exact ih _ (by omega)

end PageSpeed.Svg
