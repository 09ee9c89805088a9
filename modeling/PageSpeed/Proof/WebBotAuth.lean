import PageSpeed.Proof.Sfv

/-!
# What a signature base says

* `parseSignatureHeaders_ok`: what is signed when the headers are accepted, and that it covers
  the authority.
* `splitOn_buildSignatureBase`: the lines of a base.
* `signatureBase_inj`: a base determines what it signs.
-/

namespace PageSpeed

open Wire Wire.Scan Sfv List
open Inet (isDigit decimal)

/-- The line feed. -/
def lf : UInt8 := ch '\n'

/-! ## The parameter line has no line break -/

theorem lf_not_mem_string {s : Bytes} (hs : ∀ c ∈ s, isStringByte c = true) :
    lf ∉ serializeString s := by
  have key : isStringByte lf = false := by decide
  simp only [serializeString, mem_append, mem_flatMap, mem_singleton, not_or, not_exists, not_and]
  refine ⟨⟨by decide, fun c hc hmem => ?_⟩, by decide⟩
  have hne : c ≠ lf := by
    rintro rfl
    exact absurd (hs _ hc) (by simp [key])
  unfold escapeChar at hmem
  split at hmem
  · rw [mem_cons, mem_singleton] at hmem
    exact hmem.elim (by decide) fun h => hne h.symm
  · exact hne (mem_singleton.1 hmem).symm

theorem lf_not_mem_word {first more : UInt8 → Bool} {w : Bytes} (hw : Word first more w)
    (hf : first lf = false) (hm : more lf = false) : lf ∉ w := by
  obtain ⟨c, cs, rfl, hc, hcs⟩ := hw
  rw [mem_cons, not_or]
  constructor
  · rintro rfl
    rw [hf] at hc
    cases hc
  · intro h
    rw [hcs _ h] at hm
    cases hm

/-- A value is on one line. -/
theorem lf_not_mem_value {v : SfvValue} (hv : v.WellFormed) : lf ∉ serializeValue v := by
  have heq : lf ∉ [ch '='] := by decide
  cases v with
  | kInteger v =>
    have hdigits : lf ∉ decimal v.natAbs :=
      fun h => absurd ((decimal_spec v.natAbs).1 _ h) (by decide)
    simp only [serializeValue, signedDecimal, mem_append, not_or]
    refine ⟨heq, ?_, hdigits⟩
    split <;> decide
  | kString s =>
    simp only [serializeValue, mem_append, not_or]
    exact ⟨heq, lf_not_mem_string hv⟩
  | kToken s =>
    simp only [serializeValue, mem_append, not_or]
    exact ⟨heq, lf_not_mem_word hv (by decide) (by decide)⟩
  | kBoolean b => simp [serializeValue]

/-- So are the parameters. -/
theorem lf_not_mem_params {list : SfvInnerList} (hlist : list.WellFormed) :
    lf ∉ serializeSignatureParams list := by
  simp only [serializeSignatureParams, mem_append, mem_flatMap, not_or, not_exists, not_and]
  refine ⟨⟨⟨by decide, ?_⟩, by decide⟩, fun p hp => ?_⟩
  · refine not_mem_intercalate (by decide) fun t ht => ?_
    obtain ⟨s, hs, rfl⟩ := mem_map.1 ht
    exact lf_not_mem_string (hlist.components s hs)
  · have hwf := hlist.params p hp
    simp only [serializeParam, mem_append, not_or]
    exact ⟨⟨by decide, lf_not_mem_word hwf.name (by decide) (by decide)⟩,
      lf_not_mem_value hwf.value⟩

/-! ## Accepted headers -/

theorem coverStep_foldlM {cs covered out : List Bytes} (h : cs.foldlM coverStep covered = .ok out) :
    out = covered ++ cs := by
  induction cs generalizing covered with
  | nil =>
    cases h
    exact (append_nil _).symm
  | cons c cs ih =>
    rw [foldlM_cons, coverStep] at h
    split at h
    · cases h
    split at h
    · cases h
    rw [ih h, append_assoc, singleton_append]

/-- A parameter does not change what is covered. -/
theorem walkParam_covered {w w' : ParamWalk} {p : SfvParam} (h : walkParam w p = .ok w') :
    w'.out.covered = w.out.covered := by
  unfold walkParam at h
  (repeat' split at h) <;> cases h <;> rfl

theorem walkParam_foldlM {ps : List SfvParam} {w w' : ParamWalk}
    (h : ps.foldlM walkParam w = .ok w') :
    w'.out.covered = w.out.covered := by
  induction ps generalizing w with
  | nil =>
    cases h
    rfl
  | cons p ps ih =>
    rw [foldlM_cons] at h
    cases hp : walkParam w p with
    | error e =>
      rw [hp] at h
      cases h
    | ok w₁ =>
      rw [hp] at h
      exact (ih h).trans (walkParam_covered hp)

/-- What an accepted request takes from the member that was selected. -/
structure Accepted (inner : SfvInnerList) (out : SignatureRequest) : Prop where
  covered : out.covered = inner.components
  params : out.signatureParamsValue = serializeSignatureParams inner
  plain : inner.anyComponentParams = false
  authority : lit "@authority" ∈ out.covered

variable {out : SignatureRequest}

/-- What is accepted covers the components of the header. -/
theorem readMember_ok {selected : SfvDictMember} {signature : Bytes}
    (h : readMember selected signature = .ok out) : Accepted selected.inner out := by
  unfold readMember at h
  dsimp only at h
  split at h
  · cases h
  split at h
  · cases h
  split at h
  · cases h
  split at h
  · cases h
  -- of the checks so far only the last one is needed below
  rename_i hplain
  cases hcover : selected.inner.components.foldlM coverStep [] with
  | error e =>
    rw [hcover] at h
    cases h
  | ok covered =>
    rw [hcover] at h
    replace h : (if lit "@authority" ∉ covered then _ else _) = Except.ok out := h
    split at h
    · cases h
    rename_i hauthority
    cases hwalk : selected.inner.params.foldlM walkParam
      { out := { label := selected.label, covered := covered } } with
    | error e =>
      rw [hwalk] at h
      cases h
    | ok w =>
      rw [hwalk] at h
      replace h : (if w.haveKeyid = false ∨ w.out.keyid = [] then _ else _) = Except.ok out := h
      split at h
      · cases h
      split at h
      · cases h
      split at h
      · cases h
      split at h
      · cases h
      cases h
      have hcovered : w.out.covered = covered := walkParam_foldlM hwalk
      exact ⟨hcovered.trans (coverStep_foldlM hcover), rfl, by simpa using hplain,
        hcovered ▸ not_not.1 hauthority⟩

/-- The inner list of the member of a `Signature-Input` value that is selected. -/
def selectedInner (signatureInput : Bytes) : Option SfvInnerList :=
  (parseSignatureInputDict signatureInput).bind fun members =>
    (members.find? fun m => hasWebBotAuthTag m.inner).map (·.inner)

/-- **What is signed when the headers are accepted.** -/
theorem parseSignatureHeaders_ok {signatureInput signature : Bytes}
    (h : parseSignatureHeaders signatureInput signature = .kOk out) :
    ∃ inner, selectedInner signatureInput = some inner ∧ inner.WellFormed ∧ Accepted inner out := by
  unfold parseSignatureHeaders at h
  split at h
  · cases h
  rename_i members hmembers
  split at h
  · cases h
  split at h
  · cases h
  rename_i selected hfind
  split at h
  · cases h
  rename_i out' hread
  cases h
  refine ⟨selected.inner, ?_,
    (wellFormed_of_parse hmembers selected (mem_of_find?_eq_some hfind)).inner, readMember_ok hread⟩
  rw [selectedInner, hmembers, Option.bind_some, hfind, Option.map_some]

/-! ## The lines of a base -/

/-- The line of a component. -/
def componentLine (comp value : Bytes) : Bytes := lit "\"" ++ comp ++ lit "\": " ++ value

/-- The last line. -/
def paramsLine (params : Bytes) : Bytes := lit "\"@signature-params\": " ++ params

/-- **A base is its lines**: one for each covered component, and that of the parameters. -/
theorem splitOn_buildSignatureBase {req : BaseRequestView} {covered : List Bytes}
    {params base : Bytes}
    (h : buildSignatureBase req covered params = some base) (hparams : lf ∉ params)
    (hnames : ∀ comp ∈ covered, lf ∉ comp)
    (hvalues : ∀ comp ∈ covered, ∀ v, componentValue req comp = some v → lf ∉ v) :
    (∀ comp ∈ covered, (componentValue req comp).isSome = true) ∧
      base.splitOn lf =
        covered.map (fun comp => componentLine comp ((componentValue req comp).getD [])) ++
          [paramsLine params] := by
  have hquote : lf ∉ lit "\"" ∧ lf ∉ lit "\": " ∧ lf ∉ lit "\"@signature-params\": " := by decide
  induction covered generalizing base with
  | nil =>
    cases h
    refine ⟨by simp, ?_⟩
    rw [splitOn_eq_singleton (by simp [hquote, hparams])]
    rfl
  | cons comp covered ih =>
    rw [forall_mem_cons] at hnames hvalues
    rw [buildSignatureBase] at h
    split at h
    · rename_i value base' hvalue hbase
      cases h
      obtain ⟨hsome, hsplit⟩ := ih hbase hnames.2 hvalues.2
      -- no line feed in a name or a value, so that the line is one line of the base
      have hline : lf ∉ componentLine comp value := by
        simp [componentLine, hquote, hnames.1, hvalues.1 value hvalue]
      refine ⟨forall_mem_cons.2 ⟨by simp [hvalue], hsome⟩, ?_⟩
      rw [map_cons, cons_append, ← hsplit, hvalue, Option.getD_some,
        ← splitOn_append_cons_self_of_not_mem hline]
      simp [componentLine, lf, lit]
    · cases h

/-- A line determines its value. -/
theorem componentLine_inj {comp v v' : Bytes}
    (h : componentLine comp v = componentLine comp v') : v = v' :=
  append_cancel_left h

/-- Names of components are parsed strings, which have no line break. -/
theorem Accepted.lf_not_mem {inner : SfvInnerList} (h : Accepted inner out)
    (hinner : inner.WellFormed) : lf ∉ out.signatureParamsValue ∧ ∀ comp ∈ out.covered,
      lf ∉ comp := by
  rw [h.params, h.covered]
  refine ⟨lf_not_mem_params hinner, fun comp hcomp hmem => ?_⟩
  exact absurd (hinner.components comp hcomp lf hmem) (by decide)

/-- **A signature base determines what it signs**: the covered components, the parameters and
the value of every component, the authority among them. -/
theorem signatureBase_inj {input signature input' signature' base : Bytes}
    {out out' : SignatureRequest}
    {req req' : BaseRequestView} (hout : parseSignatureHeaders input signature = .kOk out)
    (hout' : parseSignatureHeaders input' signature' = .kOk out')
    (hvalues : ∀ comp ∈ out.covered, ∀ v, componentValue req comp = some v → lf ∉ v)
    (hvalues' : ∀ comp ∈ out'.covered, ∀ v, componentValue req' comp = some v → lf ∉ v)
    (hbase : buildSignatureBase req out.covered out.signatureParamsValue = some base)
    (hbase' : buildSignatureBase req' out'.covered out'.signatureParamsValue = some base) :
    (∃ inner, selectedInner input = some inner ∧ selectedInner input' = some inner ∧
        inner.anyComponentParams = false ∧ out.covered = inner.components) ∧
      out.covered = out'.covered ∧ out.signatureParamsValue = out'.signatureParamsValue ∧
      (∀ comp ∈ out.covered, componentValue req comp = componentValue req' comp) ∧
      req.authority = req'.authority := by
  obtain ⟨inner, hselected, hinner, hacc⟩ := parseSignatureHeaders_ok hout
  obtain ⟨inner', hselected', hinner', hacc'⟩ := parseSignatureHeaders_ok hout'
  obtain ⟨hparams, hnames⟩ := hacc.lf_not_mem hinner
  obtain ⟨hparams', hnames'⟩ := hacc'.lf_not_mem hinner'
  obtain ⟨hsome, hlines⟩ := splitOn_buildSignatureBase hbase hparams hnames hvalues
  obtain ⟨hsome', hlines'⟩ := splitOn_buildSignatureBase hbase' hparams' hnames' hvalues'
  -- the lines are the same, and the last of them gives the parameters
  obtain ⟨hbody, hlast⟩ := append_inj' (hlines.symm.trans hlines') rfl
  have htext : out.signatureParamsValue = out'.signatureParamsValue :=
    append_cancel_left (singleton_inj.1 hlast)
  have hlist : inner = inner' := by
    obtain ⟨hc, hp⟩ :=
      serializeSignatureParams_inj hinner hinner' (by rw [← hacc.params, htext, hacc'.params])
    obtain ⟨components, params, any⟩ := inner
    obtain ⟨components', params', any'⟩ := inner'
    obtain rfl : any = false := hacc.plain
    obtain rfl : any' = false := hacc'.plain
    cases hc
    cases hp
    rfl
  have hcovered : out.covered = out'.covered := by rw [hacc.covered, hacc'.covered, hlist]
  have hvalue : ∀ comp ∈ out.covered, componentValue req comp = componentValue req' comp := by
    intro comp hcomp
    rw [← hcovered] at hbody hsome'
    obtain ⟨v, hv⟩ := Option.isSome_iff_exists.1 (hsome comp hcomp)
    obtain ⟨v', hv'⟩ := Option.isSome_iff_exists.1 (hsome' comp hcomp)
    have hline := componentLine_inj (map_inj_left.1 hbody comp hcomp)
    rw [hv, hv'] at hline ⊢
    exact congrArg some hline
  refine ⟨⟨inner, hselected, hlist ▸ hselected', hacc.plain, hacc.covered⟩, hcovered,
    htext, hvalue, ?_⟩
  have hauthority := hvalue _ hacc.authority
  exact Option.some.inj hauthority

/-- The headers of a signature over the authority and the agent. -/
def agentInput : Bytes :=
  lit
    "sig1=(\"@authority\" \"signature-agent\");created=1;keyid=\"k\";alg=\"ed25519\";tag=\"web-bot-auth\""

/-- The signature header that belongs to it. -/
def agentSignature : Bytes := lit "sig1=:" ++ List.replicate 86 (ch 'A') ++ lit "==:"

/-- What the verifier is asked for these headers. -/
def agentOut : SignatureRequest :=
  { label := lit "sig1"
    covered := [lit "@authority", lit "signature-agent"]
    keyid := lit "k"
    alg := lit "ed25519"
    tag := lit "web-bot-auth"
    created := 1
    hasCreated := true
    signatureBytes := List.replicate 64 0
    signatureParamsValue :=
      lit
        "(\"@authority\" \"signature-agent\");created=1;keyid=\"k\";alg=\"ed25519\";tag=\"web-bot-auth\"" }

/-- A request with these lines of the agent's field. -/
def agentRequest (lines : List Bytes) : BaseRequestView :=
  { method := lit "GET", authority := lit "a.example", path := lit "/",
    fields := lines.map (⟨lit "Signature-Agent", ·⟩) }

/-- Two lines of a field and the one they are joined to have one base, and one value. -/
theorem signatureBase_inj_joined :
    componentValue (agentRequest [lit " x", lit "y"]) (lit "signature-agent") =
      componentValue (agentRequest [lit "x, y"]) (lit "signature-agent") := by
  have hparse : parseSignatureHeaders agentInput agentSignature = .kOk agentOut := by decide +kernel
  have hclean : ∀ lines ∈ [[lit " x", lit "y"], [lit "x, y"]], ∀ comp ∈ agentOut.covered,
      (componentValue (agentRequest lines) comp).all (fun v => lf ∉ v) = true := by
    decide +kernel
  have hvalues : ∀ lines ∈ [[lit " x", lit "y"], [lit "x, y"]], ∀ comp ∈ agentOut.covered, ∀ v,
      componentValue (agentRequest lines) comp = some v → lf ∉ v := by
    intro lines hlines comp hcomp v hv
    have h := hclean lines hlines comp hcomp
    rw [hv] at h
    simpa using h
  have hbase : ∀ lines ∈ [[lit " x", lit "y"], [lit "x, y"]],
      buildSignatureBase (agentRequest lines) agentOut.covered agentOut.signatureParamsValue =
        some (lit "\"@authority\": a.example\n\"signature-agent\": x, y\n\"@signature-params\": " ++
          agentOut.signatureParamsValue) := by
    decide +kernel
  obtain ⟨-, -, -, hvalue, -⟩ :=
    signatureBase_inj hparse hparse (hvalues [lit " x", lit "y"] (by simp))
    (hvalues [lit "x, y"] (by simp)) (hbase _ (by simp)) (hbase _ (by simp))
  exact hvalue _ (by decide)

end PageSpeed
