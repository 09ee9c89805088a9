import PageSpeed.Proof.SsrfUrl
import PageSpeed.Spec.AgentFetcher
import Mathlib.Data.List.DropRight

/-!
# Every egress of the fetcher is adjudicated

* `adjudicate_ok`: what holds of a hop that spawns.
* `fetchFrom_adjudicated`, `length_fetchFrom`: what holds of a whole run, by induction on the
  hops that are left.
* `fetchFrom_fulfilled`, `cleanHeader_of_mem`: the headers of a fulfilled outcome.
* `linkLocalAddress_iff`: the link-local guard is blind to the IPv4-mapped form, and to nothing
  else.
-/

namespace PageSpeed

open Wire Inet List

/-! ## The command line -/

section Argv

variable {url host pinnedIp : Bytes} {port : ℕ} {opts : CurlFetchOptions}

/-- A command line holds the pin, and the url comes last. -/
theorem argv_eq (h : buildPinnedGetArgv url host port pinnedIp opts ≠ []) :
    ∃ before between, buildPinnedGetArgv url host port pinnedIp opts =
      before ++ resolveOption host port pinnedIp ++ (between ++ [url]) := by
  unfold buildPinnedGetArgv at h ⊢
  split at h
  · exact absurd rfl h
  split at h
  · exact absurd rfl h
  split at h
  · exact absurd rfl h
  rename_i h1 h2 h3
  rw [if_neg h1, if_neg h2, if_neg h3]
  exact ⟨leadingOptions opts, lit "-i" :: methodOptions opts ++ [lit "--url"], by simp⟩

end Argv

/-! ## One hop -/

variable {e : Egress} {x : HttpHeader}

section Run

variable {resolve : ℕ → Bytes → List Bytes} {spawn : ℕ → List Bytes → ℕ → CurlSpawnOutcome}
  {rc : ResourceClass} {policy : FetchPolicy} {deps : AgentFetcherDeps}

/-- What was decided about a spawn on its own hop. -/
structure Adjudicated (resolve : ℕ → Bytes → List Bytes) (rc : ResourceClass) (policy : FetchPolicy)
    (deps : AgentFetcherDeps) (e : Egress) : Prop where
  decided : decideFetch e.url rc policy = e.action
  allowed : e.action = .kProxyUpstream ∨ e.action = .kFetchAllowlisted
  parsed : parseHttpUrl e.url = some e.auth
  https : deps.requireHttps = true → e.auth.scheme = lit "https"
  addrs : e.addrs = addressesOf resolve e.hop e.auth
  pinned : e.addrs.head? = some e.pinnedIp
  argv : e.argv = buildPinnedGetArgv e.url e.auth.host e.auth.port e.pinnedIp deps.curlOpts
  carries : ∃ before between, e.argv =
    before ++ resolveOption e.auth.host e.auth.port e.pinnedIp ++ (between ++ [e.url])
  isPublic : e.action = .kFetchAllowlisted → ∀ a ∈ e.addrs, isPrivateIp a = false
  notLinkLocal : e.action = .kProxyUpstream → ∀ a ∈ e.addrs, isLinkLocalIp a = false

variable {auth : UrlAuthority} {url : Bytes} {hop : ℕ} {action : FetchAction}

/-- The pinned address is the first one, and all of them are public where the policy asks for it. -/
theorem pin_ok {url pinnedIp : Bytes}
    (h : pin url action auth (addressesOf resolve hop auth) = .ok pinnedIp) :
    (addressesOf resolve hop auth).head? = some pinnedIp ∧
      (action = .kFetchAllowlisted → isPublicUrl url (addressesOf resolve hop auth) = true) ∧
      (action ≠ .kFetchAllowlisted → ∀ a ∈ addressesOf resolve hop auth,
        isLinkLocalIp a = false) := by
  -- past the three refusals: no address, a private one, a link-local one
  unfold pin at h
  split at h
  · cases h
  rename_i hne
  split at h
  · cases h
  rename_i hpublic
  split at h
  · cases h
  rename_i hlink
  refine ⟨?_, ?_, ?_⟩
  · rw [← Except.ok.inj h]
    unfold addressesOf at hne ⊢
    split_ifs at hne ⊢
    · rfl
    · obtain ⟨a, as, ha⟩ := exists_cons_of_ne_nil hne
      rw [ha]
      rfl
  · intro ha
    simpa [ha] using hpublic
  · intro ha a hm
    simp only [ha, ne_eq, not_false_eq_true, true_and, any_eq_true, not_exists, not_and,
      Bool.not_eq_true] at hlink
    exact hlink a hm

/-- A URL that passes the guard has public addresses only. -/
theorem public_of_isPublicUrl
    (hp : parseHttpUrl url = some auth)
      (h : isPublicUrl url (addressesOf resolve hop auth) = true) :
    ∀ a ∈ addressesOf resolve hop auth, isPrivateIp a = false := by
  obtain ⟨r, hr⟩ := Option.isSome_iff_exists.1 h
  unfold resolveSafe at hr
  rw [hp] at hr
  dsimp only at hr
  split at hr
  · cases hr
  split at hr
  · cases hr
  unfold addressesOf at hr ⊢
  split at hr
  · rename_i hlit
    intro a ha
    rw [if_pos hlit, mem_singleton] at ha
    rw [ha]
    split at hr
    · cases hr
    · rename_i hprivate
      simpa using hprivate
  · rename_i hlit
    rw [if_neg hlit]
    split at hr
    · cases hr
    split at hr
    · cases hr
    rename_i hany
    intro a ha
    by_contra hpriv
    exact hany (any_eq_true.2 ⟨a, ha, by simpa using hpriv⟩)

/-- **What holds of a hop that spawns.** -/
theorem adjudicate_ok
    (h : adjudicate resolve rc policy deps hop url = .ok e) :
    Adjudicated resolve rc policy deps e ∧ e.hop = hop := by
  unfold adjudicate at h
  dsimp only at h
  split at h
  · cases h
  split at h
  · cases h
  rename_i haction
  split at h
  · cases h
  rename_i auth hparsed
  split at h
  · cases h
  rename_i hhttps
  split at h
  · cases h
  split at h
  · cases h
  rename_i pinnedIp hpin
  split at h
  · cases h
  rename_i hargv
  cases h
  obtain ⟨hhead, hpublic, hlink⟩ := pin_ok hpin
  refine ⟨⟨rfl, ?_, hparsed, ?_, rfl, hhead, rfl, argv_eq hargv, ?_, ?_⟩, rfl⟩
  · by_contra hne
    exact haction (not_or.1 hne)
  · intro hreq
    by_contra hne
    exact hhttps ⟨hreq, hne⟩
  · intro ha
    exact public_of_isPublicUrl hparsed (hpublic ha)
  · intro ha
    refine hlink ?_
    rw [show decideFetch url rc policy = .kProxyUpstream from ha]
    decide

/-! ## A run -/

/-- **Every spawn of a run was adjudicated on its own hop.** -/
theorem fetchFrom_adjudicated (left hop : ℕ) (url : Bytes) :
    ∀ i e, (fetchFrom resolve spawn rc policy deps left hop url).1[i]? = some e →
      Adjudicated resolve rc policy deps e ∧ e.hop = hop + i := by
  -- a run is one hop and the run of the hops that are left
  induction left generalizing hop url with
  | zero => intro i e h; simp [fetchFrom] at h
  | succ left ih =>
    intro i e h
    rw [fetchFrom] at h
    cases ha : adjudicate resolve rc policy deps hop url with
    | error o => rw [ha] at h; simp at h
    | ok e' =>
      rw [ha] at h
      dsimp only at h
      obtain ⟨hadj, hhop⟩ := adjudicate_ok ha
      cases hc : conclude e' (spawn hop e'.argv deps.curlOpts.maxResponseBytes) with
      | inl o =>
        rw [hc] at h
        obtain ⟨rfl, rfl⟩ : i = 0 ∧ e' = e := by
          cases i with
          | zero => exact ⟨rfl, by simpa using h⟩
          | succ i => simp at h
        exact ⟨hadj, hhop⟩
      | inr next =>
        rw [hc] at h
        cases i with
        | zero =>
          obtain rfl : e' = e := by simpa using h
          exact ⟨hadj, hhop⟩
        | succ i =>
          obtain ⟨h1, h2⟩ := ih (hop + 1) next i e (by simpa using h)
          exact ⟨h1, by omega⟩

/-- No more fetches than hops. -/
theorem length_fetchFrom (left hop : ℕ) (url : Bytes) :
    (fetchFrom resolve spawn rc policy deps left hop url).1.length ≤ left := by
  induction left generalizing hop url with
  | zero => simp [fetchFrom]
  | succ left ih =>
    rw [fetchFrom]
    cases adjudicate resolve rc policy deps hop url with
    | error o => simp
    | ok e =>
      dsimp only
      cases conclude e (spawn hop e.argv deps.curlOpts.maxResponseBytes) with
      | inl o => simp
      | inr next => simpa using ih (hop + 1) next

variable {o : AgentFetchOutcome}

theorem pin_error {addrs : List Bytes} (h : pin url action auth addrs = .error o) :
    o.fulfilled = false := by
  unfold pin at h
  split_ifs at h <;> cases h <;> rfl

theorem adjudicate_error (h : adjudicate resolve rc policy deps hop url = .error o) :
    o.fulfilled = false := by
  unfold adjudicate at h
  dsimp only at h
  split at h
  · cases h; rfl
  split at h
  · cases h; rfl
  split at h
  · cases h; rfl
  split at h
  · cases h; rfl
  split at h
  · cases h; rfl
  split at h
  · rename_i hpin
    cases h
    exact pin_error hpin
  split at h
  · cases h; rfl
  · cases h

/-- What is fulfilled carries the sanitised headers of the response. -/
theorem conclude_fulfilled {sp : CurlSpawnOutcome}
    (h : conclude e sp = .inl o) (hf : o.fulfilled = true) :
    ∃ resp, parseCurlResponse sp.output = some resp ∧
      o.headers = sanitizeResponseHeaders resp.headers := by
  unfold conclude at h
  split at h
  · cases h; cases hf
  split at h
  · cases h; cases hf
  rename_i resp hresp
  split at h
  · dsimp only at h
    split at h
    · cases h; cases hf
    · cases h
  · cases h
    exact ⟨resp, hresp, rfl⟩

/-- A fulfilled outcome comes from a response, with its headers sanitised. -/
theorem fetchFrom_fulfilled (left hop : ℕ) (url : Bytes)
    (h : (fetchFrom resolve spawn rc policy deps left hop url).2.fulfilled = true) :
    ∃ raw resp, parseCurlResponse raw = some resp ∧
      (fetchFrom resolve spawn rc policy deps left hop url).2.headers =
        sanitizeResponseHeaders resp.headers := by
  induction left generalizing hop url with
  | zero => cases h
  | succ left ih =>
    rw [fetchFrom] at h ⊢
    cases ha : adjudicate resolve rc policy deps hop url with
    | error o =>
      rw [ha] at h
      exact absurd ((adjudicate_error ha).symm.trans h) (by decide)
    | ok e =>
      rw [ha] at h
      dsimp only at h ⊢
      cases hc : conclude e (spawn hop e.argv deps.curlOpts.maxResponseBytes) with
      | inl o =>
        rw [hc] at h
        obtain ⟨resp, hresp, hheaders⟩ := conclude_fulfilled hc h
        exact ⟨_, resp, hresp, hheaders⟩
      | inr next =>
        rw [hc] at h
        exact ih (hop + 1) next h

end Run

/-! ## Headers -/

/-- Stripping once is enough: what is left starts and ends with no blank. -/
theorem strip_idem (s : Bytes) :
    stripAsciiWhitespace (stripAsciiWhitespace s) = stripAsciiWhitespace s := by
  have hstrip : ∀ s, stripAsciiWhitespace s = (s.dropWhile isSpace).rdropWhile isSpace :=
    fun _ => rfl
  have hfront : ((s.dropWhile isSpace).rdropWhile isSpace).dropWhile isSpace =
      (s.dropWhile isSpace).rdropWhile isSpace := by
    have hd := dropWhile_idempotent (p := isSpace) (l := s)
    have happ := rdropWhile_append_rtakeWhile (p := isSpace) (l := s.dropWhile isSpace)
    generalize s.dropWhile isSpace = d at hd happ
    cases ht : d.rdropWhile isSpace with
    | nil => rfl
    | cons c t =>
      rw [ht] at happ
      rw [← happ, cons_append] at hd
      by_cases hc : isSpace c = true
      · -- a blank in front would have been dropped
        have hlen := congrArg List.length hd
        rw [dropWhile_cons_of_pos hc] at hlen
        have hle := length_dropWhile_le (p := isSpace) (t ++ d.rtakeWhile isSpace)
        simp only [length_cons] at hlen
        omega
      · exact dropWhile_cons_of_neg hc
  rw [hstrip (stripAsciiWhitespace s), hstrip s, hfront, rdropWhile_idempotent]

/-- Names are read without the white space around them. -/
theorem parseHeaderLine_name {line : Bytes} (h : parseHeaderLine line = some x) :
    stripAsciiWhitespace x.name = x.name := by
  unfold parseHeaderLine at h
  split at h
  · cases h
  dsimp only at h
  split at h
  · cases h
  cases h
  exact strip_idem _

variable {rest : Bytes}

/-- So are all names of a response. -/
theorem parseBlocks_names {fuel : ℕ} {resp : ParsedHttpResponse}
    (h : parseBlocks fuel rest = some resp) :
    ∀ x ∈ resp.headers, stripAsciiWhitespace x.name = x.name := by
  induction fuel generalizing rest with
  | zero => cases h
  | succ fuel ih =>
    rw [parseBlocks] at h
    split at h
    · cases h
    dsimp only at h
    split at h
    · cases h
    split at h
    · exact ih h
    · cases h
      intro x hx
      obtain ⟨line, -, hl⟩ := mem_filterMap.1 hx
      exact parseHeaderLine_name hl

theorem length_pos_of_headerEnd {hdrEnd sepLen : ℕ} (h : headerEnd rest = some (hdrEnd, sepLen)) :
    0 < rest.length ∧ 2 ≤ sepLen := by
  constructor
  · cases rest with
    | nil => cases (show headerEnd [] = none from by decide).symm.trans h
    | cons c rest => simp
  · unfold headerEnd at h
    split at h
    · cases h
    · cases h; decide
    · cases h; decide
    · split_ifs at h <;> cases h <;> decide

/-- The fuel never runs out: any two amounts beyond the length agree. -/
theorem parseBlocks_fuel {fuel fuel' : ℕ} (h : rest.length < fuel) (h' : rest.length < fuel') :
    parseBlocks fuel rest = parseBlocks fuel' rest := by
  induction fuel generalizing fuel' rest with
  | zero => cases h
  | succ fuel ih =>
    obtain ⟨fuel', rfl⟩ := Nat.exists_eq_succ_of_ne_zero (Nat.ne_zero_of_lt h')
    rw [parseBlocks, parseBlocks]
    cases hend : headerEnd rest with
    | none => rfl
    | some p =>
      obtain ⟨hdrEnd, sepLen⟩ := p
      obtain ⟨hpos, hsep⟩ := length_pos_of_headerEnd hend
      have hbody : (rest.drop (hdrEnd + sepLen)).length < rest.length := by
        rw [length_drop]
        omega
      dsimp only
      rw [ih (hbody.trans_le (Nat.le_of_lt_succ h)) (hbody.trans_le (Nat.le_of_lt_succ h'))]

/-- What may be handed on. -/
structure CleanHeader (x : HttpHeader) : Prop where
  token : isTokenName x.name = true
  kept : toLowerAscii x.name ∉ kStrip
  unsplit : ∀ c ∈ x.name ++ x.value, c ≠ ch '\r' ∧ c ≠ ch '\n' ∧ c ≠ 0

/-- The case of a name does not matter to its check. -/
theorem isTokenName_of_lower {name : Bytes} (h : isTokenName (toLowerAscii name) = true) :
    isTokenName name = true := by
  have key : ∀ c : UInt8, (lowerChar c > 0x20 ∧ lowerChar c < 0x7f ∧
      lowerChar c ∉ lit "()<>@,;:\\\"/[]?=\x7b\x7d") →
      (c > 0x20 ∧ c < 0x7f ∧ c ∉ lit "()<>@,;:\\\"/[]?=\x7b\x7d") := by
    decide +kernel
  simp only [isTokenName, decide_eq_true_eq, all_eq_true] at h ⊢
  refine ⟨?_, fun c hc => key c (h.2 _ (mem_map_of_mem hc))⟩
  rintro rfl
  exact h.1 rfl

/-- **The headers of a response after hygiene.** -/
theorem cleanHeader_of_mem {headers : List HttpHeader}
    (hstrip : stripAsciiWhitespace x.name = x.name) (h : x ∈ sanitizeResponseHeaders headers) :
    CleanHeader x := by
  obtain ⟨-, hx⟩ := mem_filter.1 h
  simp only [hstrip, decide_eq_true_eq] at hx
  obtain ⟨htoken, hclean, hkept⟩ := hx
  have hname := isTokenName_of_lower htoken
  refine ⟨hname, hkept, fun c hc => ?_⟩
  rcases mem_append.1 hc with hc | hc
  · have htok := of_decide_eq_true (all_eq_true.1 (of_decide_eq_true hname).2 c hc)
    have key : ∀ c : UInt8, c > 0x20 → c ≠ ch '\r' ∧ c ≠ ch '\n' ∧ c ≠ 0 := by decide +kernel
    exact key c htok.1
  · have hval := of_decide_eq_true (all_eq_true.1 hclean c hc)
    have key : ∀ c : UInt8, (c = ch '\t' ∨ (c ≥ 0x20 ∧ c ≠ 0x7f)) → c ≠ ch '\r' ∧
        c ≠ ch '\n' ∧ c ≠ 0 := by
      decide +kernel
    exact key c hval

/-! ## Link-local addresses -/

/-- The text of an IPv4 link-local address in its IPv4-mapped form. -/
def MappedLinkLocal (a : Bytes) : Prop :=
  ∃ b, inetPton6 (cStr a) = some b ∧ Mapped b ∧ b.getD 12 0 = 169 ∧ b.getD 13 0 = 254

/-- The text of a link-local address: 169.254.0.0/16, mapped or not, or fe80::/10. -/
def LinkLocalAddress (a : Bytes) : Prop :=
  (∃ b, inetPton4 (cStr a) = some b ∧ b.getD 0 0 = 169 ∧ b.getD 1 0 = 254) ∨
    (∃ b, inetPton6 (cStr a) = some b ∧ LinkLocal b) ∨ MappedLinkLocal a

/-- No text is an address of both families. -/
theorem inetPton6_of_inetPton4 {s b : Bytes} (h : inetPton4 s = some b) : inetPton6 s = none := by
  unfold inetPton6
  cases hr : readV6 s with
  | none => rfl
  | some x =>
    have hcanon := isCanonicalV4_of_colon (colon_mem_of_readV6 hr)
    rw [isCanonicalV4_eq, h] at hcanon
    cases hcanon

/-- **The guard is blind to the mapped form, and to nothing else.** -/
theorem linkLocalAddress_iff (a : Bytes) : LinkLocalAddress a ↔ isLinkLocalIp a = true ∨
    MappedLinkLocal a := by
  unfold LinkLocalAddress isLinkLocalIp
  rw [← or_assoc]
  refine or_congr_left ?_
  cases h4 : inetPton4 (cStr a) with
  | some b =>
    simp [inetPton6_of_inetPton4 h4]
  | none =>
    cases h6 : inetPton6 (cStr a) with
    | some b => simp [LinkLocal]
    | none => simp

/-! ## Runs of the fetcher -/

/-- A hop to a pinned upstream none of whose addresses is a mapped link-local one. -/
def HopUnmapped (resolve : ℕ → Bytes → List Bytes) (rc : ResourceClass)
    (policy : FetchPolicy) (hop : ℕ) (url : Bytes) : Prop :=
  decideFetch url rc policy = .kProxyUpstream → ∀ auth, parseHttpUrl url = some auth →
    ∀ a ∈ addressesOf resolve hop auth, ¬ MappedLinkLocal a

/-- On an adjudicated hop, the mapped form is all that can slip through. -/
theorem Adjudicated.no_linkLocal_iff {resolve : ℕ → Bytes → List Bytes} {rc : ResourceClass}
    {policy : FetchPolicy} {deps : AgentFetcherDeps} (h : Adjudicated resolve rc policy deps e) :
    (e.action = .kProxyUpstream → ∀ a ∈ e.addrs, ¬ LinkLocalAddress a) ↔
      HopUnmapped resolve rc policy e.hop e.url := by
  unfold HopUnmapped
  rw [h.decided]
  refine imp_congr_right fun hproxy => ?_
  constructor
  · intro hall auth hauth a ha hmapped
    obtain rfl := Option.some.inj (h.parsed.symm.trans hauth)
    rw [← h.addrs] at ha
    exact hall a ha ((linkLocalAddress_iff a).2 (.inr hmapped))
  · intro hall a ha hlink
    rcases (linkLocalAddress_iff a).1 hlink with hguard | hmapped
    · rw [h.notLinkLocal hproxy a ha] at hguard
      cases hguard
    · rw [h.addrs] at ha
      exact hall e.auth h.parsed a ha hmapped

/-- **Every egress of a fetch is adjudicated on its own hop**, a run whose hops are unmapped
reaches no link-local address, and what is fulfilled has clean headers. -/
theorem fetchSubresource_adjudicated (urlIn : Bytes) (rc : ResourceClass) (policy : FetchPolicy)
    (deps : AgentFetcherDeps) (resolve : ℕ → Bytes → List Bytes)
      (hresolve : deps.resolve = some resolve) (hhops : 0 ≤ deps.maxRedirectHops) :
    let (spawns, outcome) := fetchSubresource urlIn rc policy deps
    (spawns.length : ℤ) ≤ deps.maxRedirectHops + 1 ∧
      (∀ i e, spawns[i]? = some e → Adjudicated resolve rc policy deps e ∧ e.hop = i) ∧
      (outcome.fulfilled = true → ∀ x ∈ outcome.headers, CleanHeader x) ∧
      ((∀ e ∈ spawns, e.action = .kProxyUpstream → ∀ a ∈ e.addrs, ¬ LinkLocalAddress a) ↔
        ∀ e ∈ spawns, HopUnmapped resolve rc policy e.hop e.url) := by
  unfold fetchSubresource
  cases deps.spawn with
  | none =>
    refine ⟨by simp; omega, by simp, fun h => ?_, by simp⟩
    cases h
  | some spawn =>
    rw [hresolve]
    have hadj :=
      @fetchFrom_adjudicated resolve spawn rc policy deps (deps.maxRedirectHops + 1).toNat 0 urlIn
    refine ⟨?_, ?_, ?_, ?_⟩
    · have hlen :=
        @length_fetchFrom resolve spawn rc policy deps (deps.maxRedirectHops + 1).toNat 0 urlIn
      omega
    · intro i e he
      simpa using hadj i e he
    · intro hf x hx
      obtain ⟨raw, resp, hresp, hheaders⟩ := fetchFrom_fulfilled _ _ _ hf
      rw [hheaders] at hx
      exact cleanHeader_of_mem (parseBlocks_names hresp x (mem_filter.1 hx).1) hx
    · refine forall₂_congr fun e he => ?_
      obtain ⟨i, hi⟩ := mem_iff_getElem?.1 he
      exact (hadj i e hi).1.no_linkLocal_iff

/-- A backend that is pinned by name. -/
def backendPolicy : FetchPolicy := ⟨(parseUpstream (lit "http://backend/")).toList, []⟩

/-- A resolver with one answer, and a server with one response. -/
def backendDeps (answer : Bytes) : AgentFetcherDeps :=
  { spawn := some fun _ _ _ => ⟨true, some 0, lit "HTTP/1.1 200 OK\r\nServer: b\r\nAge: 1\r\n\r\nx"⟩
    resolve := some fun _ _ => [answer] }

/-- The backend at a private address, as the configuration allows. -/
theorem fetchSubresource_adjudicated_backend :
    let (spawns, outcome) :=
      fetchSubresource (lit "http://backend/a.js") .kScript backendPolicy
        (backendDeps (lit "10.0.0.1"))
    spawns.length = 1 ∧ (∀ x ∈ outcome.headers, CleanHeader x) ∧
      ∀ e ∈ spawns, e.action = .kProxyUpstream → ∀ a ∈ e.addrs, ¬ LinkLocalAddress a := by
  obtain ⟨-, -, hheaders, hlink⟩ :=
    fetchSubresource_adjudicated (lit "http://backend/a.js") .kScript backendPolicy
    (backendDeps (lit "10.0.0.1")) (fun _ _ => [lit "10.0.0.1"]) rfl (by decide)
  refine ⟨by decide +kernel, hheaders (by decide +kernel),
    hlink.2 fun e he _ auth hauth a ha hmapped => ?_⟩
  have haddr : a = lit "10.0.0.1" := by
    unfold addressesOf at ha
    have hall : ∀ e ∈ (fetchSubresource (lit "http://backend/a.js") .kScript backendPolicy
        (backendDeps (lit "10.0.0.1"))).1, (parseHttpUrl e.url).all fun auth =>
          auth.hostIsIpLiteral = false := by
      decide +kernel
    have hname := hall e he
    rw [hauth] at hname
    rw [if_neg (by simpa using hname)] at ha
    exact mem_singleton.1 ha
  obtain ⟨b, hb, -⟩ := hmapped
  rw [haddr, show inetPton6 (cStr (lit "10.0.0.1")) = none from by decide] at hb
  cases hb

/-- The metadata address in its mapped form is pinned. -/
theorem fetchSubresource_pins_mapped_metadata :
    ¬ ∀ e ∈ (fetchSubresource (lit "http://backend/a.js") .kScript backendPolicy
        (backendDeps (lit "::ffff:169.254.169.254"))).1,
      e.action = .kProxyUpstream → ∀ a ∈ e.addrs, ¬ LinkLocalAddress a := by
  intro h
  have hrun : (fetchSubresource (lit "http://backend/a.js") .kScript backendPolicy
      (backendDeps (lit "::ffff:169.254.169.254"))).1.map (fun e => (e.action, e.addrs)) =
      [(.kProxyUpstream, [lit "::ffff:169.254.169.254"])] := by
    decide +kernel
  obtain ⟨e, he, heq⟩ := mem_map.1 (hrun ▸ mem_singleton_self _)
  obtain ⟨haction, haddrs⟩ := Prod.mk.inj heq
  have hmapped : MappedLinkLocal (lit "::ffff:169.254.169.254") :=
    ⟨[0, 0, 0, 0, 0, 0, 0, 0, 0, 0, 255, 255, 169, 254, 169, 254], by decide, by decide, rfl, rfl⟩
  exact h e he haction _ (haddrs ▸ mem_singleton_self _) (.inr (.inr hmapped))

end PageSpeed
