import PageSpeed.Spec.Html

/-!
# AI opt-outs in robots.txt

`lib/html/robots_ai_directives.cc`: the groups of a robots.txt and whether one of them keeps AI
agents from the root. The second part says what RFC 9309 makes of the same text: lines end at a
carriage return too, and the groups that name an agent count together.
-/

namespace PageSpeed.Robots

open Wire Html

/-! ## Groups of lines -/

/-- An `Allow` or `Disallow` line. -/
structure Rule where
  allow : Bool
  path : Bytes
  deriving DecidableEq

/-- Agents with their rules. -/
structure Group where
  userAgents : List Bytes := []
  rules : List Rule := []
  deriving DecidableEq

/-- A line without its comment and the blanks at both ends. -/
def cleanLine (line : Bytes) : Bytes := trimHtmlSpace (line.takeWhile (· ≠ ch '#'))

/-- The value of a line `field: value`. -/
def parseDirective (line field : Bytes) : Option Bytes :=
  if ch ':' ∉ line then none
  else if stringCaseEqual (trimHtmlSpace (line.takeWhile (· ≠ ch ':'))) field = false then none
  else some (trimHtmlSpace (line.dropWhile (· ≠ ch ':')).tail)

/-- The groups so far and the one that is open. -/
structure ParseState where
  groups : List Group := []
  current : Group := {}
  seenRule : Bool := false

namespace ParseState

variable (st : ParseState)

/-- The groups with the current one, if it names an agent. -/
def close : List Group :=
  if st.current.userAgents ≠ [] then st.groups ++ [st.current] else st.groups

/-- A user-agent line; behind a rule it starts a new group. -/
def agent (value : Bytes) : ParseState :=
  let st := if st.seenRule then { groups := st.close } else st
  if value ≠ [] then
    { st with current.userAgents := st.current.userAgents ++ [value.map lowerChar] } else st

/-- A rule of the open group. -/
def rule (r : Rule) : ParseState :=
  { st with current.rules := st.current.rules ++ [r], seenRule := true }

/-- One line of the file. -/
def line (raw : Bytes) : ParseState :=
  let line := cleanLine raw
  if line = [] then st
  else
    match parseDirective line (lit "user-agent") with
    | some value => st.agent value
    | none =>
      match parseDirective line (lit "disallow") with
      | some value => st.rule ⟨false, value⟩
      | none =>
        match parseDirective line (lit "allow") with
        | some value => st.rule ⟨true, value⟩
        | none => st

end ParseState

/-- The groups of a file. -/
def parseGroups (robots : Bytes) : List Group :=
  ((robots.splitOn (ch '\n')).foldl ParseState.line {}).close

/-- The paths that stand for the whole site. -/
def pathBlocksRoot (path : Bytes) : Bool := path = lit "/" ∨ path = lit "/*"

/-- One name of a group, with the group found for the agent so far and the one found for `*`. -/
def lookName (ua : Bytes) (g : Group) (found : Option Group × Option Group) (name : Bytes) :
    Option Group × Option Group :=
  if name = lit "*" then (found.1, some g)
  else if stringCaseEqual name ua then (some g, found.2) else found

/-- The last group for the agent, or the last for `*`, shuts it out. -/
def disallowsRoot (groups : List Group) (ua : Bytes) : Bool :=
  let found := groups.foldl (fun found g => g.userAgents.foldl (lookName ua g) found) (none, none)
  match found.1.or found.2 with
  | none => false
  | some applicable =>
    (applicable.rules.any fun r => pathBlocksRoot r.path && !r.allow) &&
      !(applicable.rules.any fun r => pathBlocksRoot r.path && r.allow)

/-- The crawlers that gather text for models. -/
def knownAiUserAgents : List Bytes :=
  ["gptbot", "google-extended", "ccbot", "claudebot", "anthropic-ai", "perplexitybot", "bytespider",
    "amazonbot", "applebot-extended", "meta-externalagent", "cohere-ai", "diffbot", "omgilibot",
    "facebookbot", "imagesiftbot", "claude-web", "google-cloudvertexbot"].map lit

/-- The site keeps AI agents out as a whole. -/
def analyzeRobotsForAi (robotsTxt : Bytes) : Bool :=
  let groups := parseGroups robotsTxt
  disallowsRoot groups (lit "*") || knownAiUserAgents.any (disallowsRoot groups)

/-! ## RFC 9309 -/

/-- A line that counts. -/
inductive Record
  | agent (name : Bytes)
  | rule (r : Rule)
  deriving DecidableEq

/-- A line as a record. -/
def readRecord (raw : Bytes) : Option Record :=
  let line := cleanLine raw
  ((parseDirective line (lit "user-agent")).map fun value => Record.agent (value.map lowerChar)) <|>
    ((parseDirective line (lit "disallow")).map fun value => Record.rule ⟨false, value⟩) <|>
    ((parseDirective line (lit "allow")).map fun value => Record.rule ⟨true, value⟩)

/-- Lines end at a line feed, at a carriage return, or at both. -/
def records (robots : Bytes) : List Record :=
  (robots.splitOnP fun c => c = ch '\r' ∨ c = ch '\n').filterMap readRecord

/-- The rules up to the next user-agent line. -/
def leadingRules : List Record → List Rule
  | .rule r :: rest => r :: leadingRules rest
  | _ => []

/-- A group is some user-agent lines and the rules behind them. -/
def groupsOf : List Record → List Group
  | [] => []
  | .rule _ :: rest => groupsOf rest
  | .agent name :: rest =>
    match rest, groupsOf rest with
    | .agent _ :: _, g :: gs => { g with userAgents := name :: g.userAgents } :: gs
    | _, gs => ⟨[name], leadingRules rest⟩ :: gs

/-- The group is for this agent. -/
def Group.names (g : Group) (ua : Bytes) : Bool := ua ∈ g.userAgents

/-- The groups that name the agent, or the groups for `*` where none does. -/
def groupsFor (groups : List Group) (ua : Bytes) : List Group :=
  if groups.any (·.names ua) then groups.filter (·.names ua) else groups.filter (·.names (lit "*"))

/-- The rules of all groups for an agent. -/
def rulesFor (groups : List Group) (ua : Bytes) : List Rule :=
  (groupsFor groups ua).flatMap Group.rules

/-- A rule disallows the root. -/
def Denies (rules : List Rule) : Prop := ∃ r ∈ rules, r.allow = false ∧ pathBlocksRoot r.path

/-- A rule allows the root. -/
def Allows (rules : List Rule) : Prop := ∃ r ∈ rules, r.allow = true ∧ pathBlocksRoot r.path

/-- The rules disallow the root, and none allows it. -/
def OptsOut (rules : List Rule) : Prop := Denies rules ∧ ¬ Allows rules

/-- `*` or an AI agent is kept out. -/
def AiOptOut (robots : Bytes) : Prop :=
  ∃ ua ∈ lit "*" :: knownAiUserAgents, OptsOut (rulesFor (groupsOf (records robots)) ua)

/-! ## Several groups for one agent -/

/-- The last group that names the agent. -/
def lastNaming (groups : List Group) (ua : Bytes) : Option Group :=
  groups.reverse.find? (·.names ua)

/-- The rules of the last of an agent's groups. -/
def lastRules (groups : List Group) (ua : Bytes) : List Rule :=
  ((groupsFor groups ua).getLast?.map Group.rules).getD []

/-- The rules of an agent's groups before the last one. -/
def earlierRules (groups : List Group) (ua : Bytes) : List Rule :=
  (groupsFor groups ua).dropLast.flatMap Group.rules

/-- The lines between line feeds hold the records of RFC 9309, whose lines end at carriage returns
too. -/
def SameLines (robots : Bytes) : Prop :=
  (robots.splitOn (ch '\n')).filterMap readRecord = records robots

/-- What the groups before an agent's last one say of the root is not needed for the answer. -/
structure LastDecides (robots : Bytes) : Prop where
  /-- Where an earlier group keeps an agent out, there is one that its last group keeps out. -/
  denied : ∀ ua ∈ lit "*" :: knownAiUserAgents,
    Denies (earlierRules (groupsOf (records robots)) ua) →
      ¬ Allows (rulesFor (groupsOf (records robots)) ua) →
      ∃ ua' ∈ lit "*" :: knownAiUserAgents, OptsOut (lastRules (groupsOf (records robots)) ua')
  /-- Where an earlier group lets an agent in that the last one keeps out, there is one that all its
  groups keep out. -/
  allowed : ∀ ua ∈ lit "*" :: knownAiUserAgents,
    OptsOut (lastRules (groupsOf (records robots)) ua) →
      Allows (earlierRules (groupsOf (records robots)) ua) → AiOptOut robots

end PageSpeed.Robots
