import PageSpeed.Spec.RobotsAi

/-!
# The answer about AI opt-outs

* `foldl_read`: the loop over the lines makes the groups of their records.
* `disallowsRoot_eq`: an agent is looked up in the last group that names it.
* `sameLines_of_lineEnds`: carriage returns at the ends of lines part no records.
* `analyzeRobotsForAi_iff`: the answer is that of RFC 9309 just if the groups before the last are
  not needed for it.
-/

namespace PageSpeed.Robots

open Wire Html List ParseState Robots.Group

/-! ## Lines and records -/

/-- A record as the loop takes it. -/
def ParseState.read (st : ParseState) : Record → ParseState
  | .agent name =>
    let st := if st.seenRule then { groups := st.close } else st
    if name ≠ [] then { st with current.userAgents := st.current.userAgents ++ [name] } else st
  | .rule r => st.rule r

/-- A line is read as its record. -/
theorem line_eq (st : ParseState) (raw : Bytes) :
    st.line raw = (readRecord raw).elim st st.read := by
  rw [line, readRecord]
  have hempty : ∀ field, parseDirective [] field = none := fun field => if_pos (not_mem_nil)
  by_cases hline : cleanLine raw = []
  · simp [hline, hempty]
  rw [if_neg hline]
  cases parseDirective (cleanLine raw) (lit "user-agent") with
  | some value => simp [ParseState.agent, ParseState.read]
  | none =>
    cases parseDirective (cleanLine raw) (lit "disallow") with
    | some value => rfl
    | none => cases parseDirective (cleanLine raw) (lit "allow") <;> rfl

/-- So is a file. -/
theorem foldl_line (lines : List Bytes) (st : ParseState) :
    lines.foldl ParseState.line st = (lines.filterMap readRecord).foldl ParseState.read st := by
  induction lines generalizing st with
  | nil => rfl
  | cons raw lines ih =>
    rw [foldl_cons, ih, line_eq, filterMap_cons]
    cases readRecord raw <;> rfl

/-! ## Groups -/

theorem leadingRules_append (rules : List Rule) {rest : List Record}
    (hrest : rest = [] ∨ ∃ name tail, rest = .agent name :: tail) :
    leadingRules (rules.map .rule ++ rest) = rules := by
  induction rules with
  | nil => rcases hrest with rfl | ⟨name, tail, rfl⟩ <;> rfl
  | cons r rules ih => rw [map_cons, cons_append, leadingRules, ih]

theorem groupsOf_rules (rules : List Rule) (rest : List Record) :
    groupsOf (rules.map .rule ++ rest) = groupsOf rest := by
  induction rules with
  | nil => rfl
  | cons r rules ih => rw [map_cons, cons_append, groupsOf, ih]

/-- Some user-agent lines with the rules behind them are a group. -/
theorem groupsOf_block {names : List Bytes} (hnames : names ≠ []) (rules : List Rule)
    {rest : List Record}
    (hrest : rest = [] ∨ rules ≠ [] ∧ ∃ name tail, rest = .agent name :: tail) :
    groupsOf (names.map .agent ++ (rules.map .rule ++ rest)) = ⟨names, rules⟩ :: groupsOf rest := by
  have hleading := leadingRules_append rules (hrest.imp_right And.right)
  have hgroups := groupsOf_rules rules rest
  induction names with
  | nil => exact absurd rfl hnames
  | cons name names ih =>
    cases names with
    | nil =>
      rw [map_singleton, singleton_append, groupsOf, hleading, hgroups]
      -- what follows is a rule or nothing
      rintro name' tail g gs hnext -
      rcases rules with _ | ⟨r, rules⟩
      · obtain rfl := hrest.resolve_right fun h => h.1 rfl
        cases hnext
      · cases hnext
    | cons name' names =>
      have hrec := ih (cons_ne_nil _ _)
      rw [map_cons, cons_append] at hrec
      rw [map_cons, map_cons, cons_append, cons_append, groupsOf.eq_def]
      simp only [hrec]

/-- A group without the empty names. -/
def Group.norm (g : Group) : Group := { g with userAgents := g.userAgents.filter (· ≠ []) }

/-- The groups that name something. -/
def normalize (groups : List Group) : List Group :=
  (groups.map Group.norm).filter (·.userAgents ≠ [])

/-- The loop, from a state in the middle of a group: what it has read of the group counts as if it
were still to come. -/
theorem foldl_read (rs : List Record) : ∀ (st : ParseState) (names : List Bytes),
    st.current.userAgents = names.filter (· ≠ []) → (st.seenRule = true ↔ st.current.rules ≠ []) →
    (rs.foldl ParseState.read st).close = st.groups ++
      normalize (groupsOf (names.map .agent ++ (st.current.rules.map .rule ++ rs))) := by
  -- what closing a group adds is the group of the names and rules read so far
  have hclose : ∀ {st : ParseState} {names : List Bytes} {rest : List Record},
    st.current.userAgents = names.filter (· ≠ []) →
      (rest = [] ∨ st.current.rules ≠ [] ∧ ∃ name tail, rest = .agent name :: tail) →
      st.groups ++ normalize (groupsOf (names.map .agent ++ (st.current.rules.map .rule ++ rest))) =
        st.close ++ normalize (groupsOf rest) := by
    intro st names rest hagents hrest
    cases names with
    | nil =>
      have hnil : st.current.userAgents = [] := hagents
      rw [map_nil, nil_append, groupsOf_rules, close, if_neg (not_not.2 hnil)]
    | cons name names =>
      have hnorm : Group.norm ⟨name :: names, st.current.rules⟩ = st.current := by
        rw [Group.norm, ← hagents]
      rw [groupsOf_block (cons_ne_nil _ _) _ hrest, close, normalize, map_cons, hnorm, filter_cons]
      by_cases hempty : st.current.userAgents = []
      · simp [hempty, normalize]
      · simp [hempty, normalize]
  induction rs with
  | nil =>
    intro st names hagents hseen
    rw [hclose hagents (.inl rfl)]
    exact (append_nil _).symm
  | cons record rs ih =>
    intro st names hagents hseen
    rw [foldl_cons]
    cases record with
    | rule r =>
      have hstep := ih (st.rule r) names hagents (by simp [rule])
      rw [ParseState.read, hstep]
      simp [rule]
    | agent name =>
      cases hseenRule : st.seenRule with
      | true =>
        -- a name behind a rule starts the next group
        have hrules := hseen.1 hseenRule
        have hread : st.read (.agent name) =
            { groups := st.close, current.userAgents := [name].filter (· ≠ []) } := by
          by_cases hname : name = [] <;> simp [ParseState.read, hseenRule, hname]
        rw [hread, ih _ [name] rfl (by simp), hclose hagents (.inr ⟨hrules, name, rs, rfl⟩)]
        rfl
      | false =>
        -- a name behind names joins them
        have hrules : st.current.rules = [] := by
          by_contra hne
          rw [hseen.2 hne] at hseenRule
          cases hseenRule
        have hread : st.read (.agent name) =
            { st with current.userAgents := st.current.userAgents ++ [name].filter (· ≠ []) } := by
          have hsame : (if st.seenRule then { groups := st.close } else st) = st :=
            if_neg (by simp [hseenRule])
          by_cases hname : name = [] <;> simp [ParseState.read, hsame, hname]
        have hstep :=
          ih (st.read (.agent name)) (names ++ [name]) (by rw [hread, hagents, filter_append])
        rw [hread] at hstep ⊢
        rw [hstep hseen, hrules]
        simp

/-- The parser finds the groups of the records, names without text aside. -/
theorem parseGroups_eq (robots : Bytes) :
    parseGroups robots = normalize
      (groupsOf ((robots.splitOn (ch '\n')).filterMap readRecord)) := by
  rw [parseGroups, foldl_line]
  exact foldl_read _ {} [] rfl (by simp)

/-! ## The group of an agent -/

/-- Names of agents are in lower case. -/
def Lowered (groups : List Group) : Prop :=
  ∀ g ∈ groups, ∀ name ∈ g.userAgents, name.map lowerChar = name

/-- The search through a group's names. -/
theorem lookNames (ua : Bytes) (hua : ua.map lowerChar = ua) (g : Group) :
    ∀ (names : List Bytes) (found : Option Group × Option Group),
    (∀ name ∈ names, name.map lowerChar = name) →
    names.foldl (lookName ua g) found =
      (if ua ∈ names ∧ ua ≠ lit "*" then some g else found.1, if lit "*" ∈ names then some g
        else found.2) := by
  intro names
  induction names with
  | nil => exact fun found _ => by simp
  | cons name names ih =>
    intro found hnames
    rw [forall_mem_cons] at hnames
    rw [foldl_cons, ih _ hnames.2, lookName]
    by_cases hstar : name = lit "*"
    · subst hstar
      by_cases hua' : ua = lit "*"
      · simp [hua']
      · simp [hua']
    have hequal : stringCaseEqual name ua = decide (name = ua) := by
      rw [stringCaseEqual, hnames.1, hua]
    rw [if_neg hstar, hequal]
    by_cases hname : name = ua
    · subst hname
      simp [hstar, Ne.symm hstar]
    · simp [hname, Ne.symm hname, Ne.symm hstar]

/-- The last group for an agent, from the end. -/
theorem lastNaming_append (groups : List Group) (g : Group) (ua : Bytes) :
    lastNaming (groups ++ [g]) ua = if g.names ua then some g else lastNaming groups ua := by
  rw [lastNaming, lastNaming, reverse_append, reverse_singleton, singleton_append, find?_cons]
  cases g.names ua <;> rfl

variable {groups : List Group} {ua : Bytes}

/-- The lookup keeps the last group for the agent and the last one for `*`. -/
theorem foldl_look (hua : ua.map lowerChar = ua) (hlowered : Lowered groups) :
    groups.foldl (fun found g => g.userAgents.foldl (lookName ua g) found) (none, none) =
      (if ua = lit "*" then none else lastNaming groups ua, lastNaming groups (lit "*")) := by
  induction groups using reverseRecOn with
  | nil => simp [lastNaming]
  | append_singleton groups g ih =>
    have hg : ∀ name ∈ g.userAgents, name.map lowerChar = name := hlowered g (by simp)
    rw [foldl_append, ih fun g' hg' => hlowered g' (by simp [hg']), foldl_cons, foldl_nil,
      lookNames ua hua g _ _ hg, lastNaming_append, lastNaming_append]
    by_cases hstar : ua = lit "*"
    · simp [hstar, names]
    · simp [hstar, names]

instance (rules : List Rule) : Decidable (Denies rules) := inferInstanceAs (Decidable (∃ _ ∈ _, _))

instance (rules : List Rule) : Decidable (Allows rules) := inferInstanceAs (Decidable (∃ _ ∈ _, _))

instance (rules : List Rule) : Decidable (OptsOut rules) := inferInstanceAs (Decidable (_ ∧ _))

/-- **An agent is looked up in the last group that names it.** -/
theorem disallowsRoot_eq (hua : ua.map lowerChar = ua) (hlowered : Lowered groups) :
    disallowsRoot groups ua = true ↔
      ∃ g ∈ (lastNaming groups ua).or (lastNaming groups (lit "*")), OptsOut g.rules := by
  have hfound :
    ((if ua = lit "*" then none else lastNaming groups ua).or (lastNaming groups (lit "*"))) =
      (lastNaming groups ua).or (lastNaming groups (lit "*")) := by
    split_ifs with hstar
    · rw [hstar, Option.none_or, Option.or_self]
    · rfl
  rw [disallowsRoot, foldl_look hua hlowered]
  simp only [hfound]
  cases (lastNaming groups ua).or (lastNaming groups (lit "*")) with
  | none => simp
  | some g =>
    simp only [Option.mem_some_iff, exists_eq_left', OptsOut, Denies, Allows, Bool.and_eq_true,
      Bool.not_eq_true', ← Bool.not_eq_true, any_eq_true, and_comm]

/-! ### Groups that name nothing -/

theorem names_norm (g : Group) (hua : ua ≠ []) : g.norm.names ua = g.names ua := by
  simp [Group.names, Group.norm, hua]

/-- Normalisation loses no group of a named agent. -/
theorem lastNaming_normalize (groups : List Group) (hua : ua ≠ []) :
    lastNaming (normalize groups) ua = (lastNaming groups ua).map Group.norm := by
  induction groups using reverseRecOn with
  | nil => rfl
  | append_singleton groups g ih =>
    have hnormalize : normalize (groups ++ [g]) = normalize groups ++ if g.norm.userAgents ≠ [] then
        [g.norm] else [] := by
      simp [normalize, filter_cons]
    rw [hnormalize, lastNaming_append]
    by_cases hempty : g.norm.userAgents = []
    · have hnot : g.names ua = false := by rw [← names_norm g hua, names, hempty]; rfl
      simp [hempty, hnot, ih]
    · rw [if_pos hempty, lastNaming_append, ih, names_norm g hua]
      cases g.names ua <;> rfl

theorem lowered_groupsOf {rs : List Record}
    (h : ∀ name, .agent name ∈ rs → name.map lowerChar = name) : Lowered (groupsOf rs) := by
  induction rs with
  | nil => nofun
  | cons record rs ih =>
    have hrec := ih fun name hname => h name (.tail _ hname)
    cases record with
    | rule r => exact hrec
    | agent name =>
      have hname := h name (.head _)
      rw [groupsOf.eq_def]
      simp only
      split
      next _ g gs heq =>
        rw [heq] at hrec
        refine forall_mem_cons.2 ⟨fun name' hname' => ?_, fun g' hg' => hrec g' (.tail _ hg')⟩
        rcases mem_cons.1 hname' with rfl | hname'
        · exact hname
        · exact hrec g (.head _) name' hname'
      next => exact forall_mem_cons.2 ⟨by simpa using hname, hrec⟩

/-- Names are read in lower case. -/
theorem lowered_records (lines : List Bytes) (name : Bytes)
    (h : .agent name ∈ lines.filterMap readRecord) :
    name.map lowerChar = name := by
  have hidem : ∀ c, lowerChar (lowerChar c) = lowerChar c := by decide +kernel
  obtain ⟨raw, -, hraw⟩ := mem_filterMap.1 h
  rw [readRecord] at hraw
  cases hagent : parseDirective (cleanLine raw) (lit "user-agent") with
  | some value =>
    rw [hagent] at hraw
    obtain rfl : value.map lowerChar = name := Record.agent.inj (Option.some.inj hraw)
    simp [hidem]
  | none =>
    rw [hagent] at hraw
    cases hdisallow : parseDirective (cleanLine raw) (lit "disallow") with
    | some value => rw [hdisallow] at hraw; cases hraw
    | none =>
      rw [hdisallow] at hraw
      cases hallow : parseDirective (cleanLine raw) (lit "allow") <;> rw [hallow] at hraw
        <;> cases hraw

theorem lowered_normalize (h : Lowered groups) : Lowered (normalize groups) := by
  intro g hg name hname
  obtain ⟨g', hg', rfl⟩ := mem_map.1 (mem_filter.1 hg).1
  exact h g' hg' name (mem_filter.1 hname).1

/-! ## Line ends -/

/-- White space at the end makes no difference. -/
theorem trimHtmlSpace_concat (s : Bytes) {c : UInt8} (hc : isHtmlSpace c) :
    trimHtmlSpace (s ++ [c]) = trimHtmlSpace s := by
  rw [trimHtmlSpace, trimHtmlSpace, dropWhile_append]
  by_cases hall : s.dropWhile isHtmlSpace = []
  · simp [hall, hc]
  · rw [if_neg (by simpa using hall), reverse_append, reverse_singleton, singleton_append,
      dropWhile_cons_of_pos hc]

/-- A carriage return at the end of a line is white space, or part of a comment. -/
theorem readRecord_concat (raw : Bytes) : readRecord (raw ++ [ch '\r']) = readRecord raw := by
  have hclean : cleanLine (raw ++ [ch '\r']) = cleanLine raw := by
    rw [cleanLine, cleanLine, takeWhile_append]
    split_ifs
    · have hcr : [ch '\r'].takeWhile (· ≠ ch '#') = [ch '\r'] := by decide
      rw [hcr, trimHtmlSpace_concat _ (by decide)]
      exact congrArg trimHtmlSpace (takeWhile_sublist _ |>.eq_of_length ‹_›).symm
    · rfl
  rw [readRecord, readRecord, hclean]

/-- **Carriage returns at the ends of lines part no records.** -/
theorem sameLines_of_lineEnds {robots : Bytes}
    (hlineEnds : ∀ before after, robots = before ++ ch '\r' :: after →
      after = [] ∨ after.head? = some (ch '\n')) :
    SameLines robots := by
  rw [SameLines, records]
  have hplain : ∀ line : Bytes, ch '\r' ∉ line → ch '\n' ∉ line → ∀ c ∈ line,
      decide (c = ch '\r' ∨ c = ch '\n') = false := by
    intro line hcr hlf c hc
    refine decide_eq_false ?_
    rintro (rfl | rfl)
    · exact hcr hc
    · exact hlf hc
  have hempty : readRecord [] = none := by decide +kernel
  -- by lines: what a line feed ends, the other reader ends at the same place
  induction robots using splitOn_induction (c := ch '\n') with
  | hlast s hs =>
    rw [splitOn_eq_singleton hs]
    by_cases hmem : ch '\r' ∈ s
    · obtain ⟨line, after, rfl, hline⟩ := eq_append_cons_of_mem hmem
      have hlf : ch '\n' ∉ line := fun hc => hs (mem_append_left _ hc)
      rcases hlineEnds line after rfl with rfl | hhead
      · rw [splitOnP_append_cons_of_forall_mem (hplain line hline hlf) _ (by decide), splitOnP_nil,
          filterMap_cons, readRecord_concat, filterMap_cons, filterMap_cons, hempty]
      · obtain ⟨t, rfl⟩ := head?_eq_some_iff.1 hhead
        exact absurd (by simp) hs
    · rw [splitOnP_eq_singleton (hplain s hmem hs)]
  | hcons a b ha ih =>
    have hrest :=
      ih fun before after hb => hlineEnds (a ++ ch '\n' :: before) after (by rw [hb]; simp)
    rw [splitOn_append_cons_self_of_not_mem ha, filterMap_cons, hrest]
    by_cases hmem : ch '\r' ∈ a
    · -- the line feed is right behind the carriage return, so that the line ends in it
      obtain ⟨line, y, rfl, hline⟩ := eq_append_cons_of_mem hmem
      have hhead := (hlineEnds line (y ++ ch '\n' :: b) (by simp)).resolve_left (by simp)
      cases y with
      | cons d y =>
        cases hhead
        exact absurd (by simp) ha
      | nil =>
        have hlf : ch '\n' ∉ line := fun hc => ha (mem_append_left _ hc)
        rw [readRecord_concat, append_assoc, singleton_append,
          splitOnP_append_cons_of_forall_mem (hplain line hline hlf) _ (by decide),
          splitOnP_cons_eq_if_modifyHead, if_pos (by decide), filterMap_cons, filterMap_cons,
          hempty]
    · rw [splitOnP_append_cons_of_forall_mem (hplain a hmem ha) _ (by decide), filterMap_cons]

/-! ## The answer -/

/-- It is the last of all groups for the agent. -/
theorem lastNaming_eq_getLast? (groups : List Group) (ua : Bytes) :
    lastNaming groups ua = (groups.filter (·.names ua)).getLast? := by
  rw [lastNaming, ← head?_filter, filter_reverse, head?_reverse]

/-- The group that is looked at is the last of those that count. -/
theorem lastNaming_or (groups : List Group) (ua : Bytes) :
    (lastNaming groups ua).or (lastNaming groups (lit "*")) = (groupsFor groups ua).getLast? := by
  rw [lastNaming_eq_getLast?, lastNaming_eq_getLast?, groupsFor]
  split
  · rename_i hany
    obtain ⟨g, hg, hnames⟩ := any_eq_true.1 hany
    have hne : groups.filter (·.names ua) ≠ [] := ne_nil_of_mem (mem_filter.2 ⟨hg, hnames⟩)
    rw [getLast?_eq_some_getLast hne, Option.some_or]
  · rename_i hany
    have hnil : groups.filter (·.names ua) = [] := by
      rw [filter_eq_nil_iff]
      exact fun g hg hnames => hany (any_eq_true.2 ⟨g, hg, hnames⟩)
    rw [hnil, getLast?_nil, Option.none_or]

theorem not_optsOut_nil : ¬ OptsOut [] := fun h => absurd h.1 (by simp [Denies])

/-- **The answer is given by the last groups**, if the lines are those of RFC 9309. -/
theorem analyzeRobotsForAi_last {robots : Bytes} (hlines : SameLines robots) :
    analyzeRobotsForAi robots = true ↔
    ∃ ua ∈ lit "*" :: knownAiUserAgents, OptsOut (lastRules (groupsOf (records robots)) ua) := by
  have hlower : ∀ ua ∈ lit "*" :: knownAiUserAgents, ua.map lowerChar = ua ∧ ua ≠ [] := by
    decide +kernel
  have hlowered : Lowered (normalize (groupsOf (records robots))) :=
    lowered_normalize (lowered_groupsOf (lowered_records _))
  have hua : ∀ ua ∈ lit "*" :: knownAiUserAgents,
    disallowsRoot (normalize (groupsOf (records robots))) ua = true ↔
      OptsOut (lastRules (groupsOf (records robots)) ua) := by
    intro ua hmem
    generalize groupsOf (records robots) = groups at hlowered ⊢
    rw [disallowsRoot_eq (hlower ua hmem).1 hlowered,
      lastNaming_normalize groups (hlower ua hmem).2,
      lastNaming_normalize groups (hlower (lit "*") (.head _)).2, ← Option.map_or,
        lastNaming_or, lastRules]
    cases (groupsFor groups ua).getLast? with
    | none => simp [not_optsOut_nil]
    | some g => simp [Group.norm]
  rw [analyzeRobotsForAi, parseGroups_eq, show _ = records robots from hlines, Bool.or_eq_true,
    any_eq_true, exists_mem_cons_iff]
  exact or_congr (hua _ (.head _)) (exists_congr fun ua => and_congr_right fun hmem =>
    hua ua (.tail _ hmem))

/-- What counts for an agent is what its earlier groups say and what the last one says. -/
theorem rulesFor_eq (groups : List Group) (ua : Bytes) :
    rulesFor groups ua = earlierRules groups ua ++ lastRules groups ua := by
  rw [rulesFor, earlierRules, lastRules]
  rcases eq_nil_or_concat (groupsFor groups ua) with hnil | ⟨earlier, g, hconcat⟩
  · simp [hnil]
  · simp [hconcat]

/-- The rules of all groups against those of the last one. -/
theorem optsOut_rulesFor (groups : List Group) (ua : Bytes) : OptsOut (rulesFor groups ua) ↔
    (Denies (earlierRules groups ua) ∨ Denies (lastRules groups ua)) ∧
      ¬ Allows (earlierRules groups ua) ∧ ¬ Allows (lastRules groups ua) := by
  simp only [OptsOut, Denies, Allows, rulesFor_eq, mem_append, or_and_right, exists_or, not_or]

instance (robots : Bytes) : Decidable (AiOptOut robots) := inferInstanceAs (Decidable (∃ _ ∈ _, _))

instance (robots : Bytes) : Decidable (LastDecides robots) :=
  decidable_of_iff (_ ∧ _) ⟨fun h => ⟨h.1, h.2⟩, fun h => ⟨h.1, h.2⟩⟩

instance (robots : Bytes) : Decidable (SameLines robots) := inferInstanceAs (Decidable (_ = _))

-- A group for `*` before two groups of an agent, the first of which is lost: the answer is right
-- all the same.
example :
    LastDecides (lit
      "User-agent: *\nDisallow: /\n\nUser-agent: GPTBot\nDisallow: /\n\nUser-agent: GPTBot\nAllow: /x") := by
  decide +kernel

end PageSpeed.Robots
