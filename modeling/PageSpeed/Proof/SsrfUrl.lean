import PageSpeed.Proof.V6Spelling

/-!
# Urls with an IPv6 host

* `classifyHostLiteral_v6`: an IPv6 text is its own canonical form.
* `resolveSafe_bracketed`: a url whose host is a restricted address is refused exactly
  when it is malformed or its spelling is plain.
* `resolveSafe_resolved`: the same for the addresses a host name resolves to.
-/

namespace PageSpeed

open Wire Inet Inet.V6Text List

/-! ## No IPv4 form has a colon -/

/-- A number never takes a colon. -/
theorem strtoul_spec (s : Bytes) : ∃ p, s = p ++ (strtoul s).2 ∧ ch ':' ∉ p := by
  have hsplit : ∀ (q : UInt8 → Bool) (s : Bytes), q (ch ':') = false →
      s = s.takeWhile q ++ s.dropWhile q ∧ ch ':' ∉ s.takeWhile q := by
    intro q s hq
    refine ⟨takeWhile_append_dropWhile.symm, fun hm => ?_⟩
    rw [mem_takeWhile_imp hm] at hq
    cases hq
  have hdigits : ∀ s, ∃ p, s = p ++ (strtoul.ofDigits s).2 ∧ ch ':' ∉ p := by
    intro s
    unfold strtoul.ofDigits
    split_ifs
    · exact ⟨_, hsplit _ s (by decide)⟩
    · exact ⟨_, hsplit _ s (by decide)⟩
  match s with
  | [] | [c] | [c, x] => exact hdigits _
  | c :: x :: d :: rest =>
    unfold strtoul
    dsimp only
    split_ifs with h
    · obtain ⟨h1, h2⟩ := hsplit isHexDigit (d :: rest) (by decide)
      refine ⟨c :: x :: (d :: rest).takeWhile
        isHexDigit, by rw [cons_append, cons_append, ← h1], ?_⟩
      rw [mem_cons, mem_cons, not_or, not_or, h.1]
      refine ⟨by decide, ?_, h2⟩
      rcases h.2.1 with rfl | rfl <;> decide
    · exact hdigits _

/-- One part of a lenient address: a dot and more parts follow, or nothing but a blank. -/
theorem atonParts_cases {parts value n : ℕ} {s : Bytes} (h : atonParts parts value s = some n) :
    (∃ parts' value' more, parts = parts' + 1 ∧ (strtoul s).2 = ch '.' :: more ∧
      atonParts parts' value' more = some n) ∨ ∀ c ∈ (strtoul s).2.head?, isSpace c = true := by
  unfold atonParts at h
  split at h
  · dsimp only at h
    split at h
    · cases h
    by_cases hdot : (strtoul s).2.head? = some (ch '.')
    · left
      obtain ⟨more, hmore⟩ := head?_eq_some_iff.1 hdot
      rw [if_pos hdot] at h
      cases parts with
      | zero => cases h
      | succ parts =>
        dsimp only at h
        split at h
        · cases h
        · exact ⟨parts, _, more, rfl, hmore, by rw [hmore] at h; exact h⟩
    · right
      rw [if_neg hdot] at h
      split at h
      case isTrue hend =>
        intro c hc
        rw [Option.mem_def] at hc
        rw [hc] at hend
        exact hend.1
      case isFalse => cases h
  · cases h

/-- Apart from what follows a blank, an address has no colon. -/
theorem atonParts_no_colon {parts value n : ℕ} {s : Bytes} (h : atonParts parts value s = some n)
    (hs : ∀ c ∈ s, isSpace c = false) : ch ':' ∉ s := by
  induction parts using Nat.strong_induction_on generalizing value s with
  | _ parts ih =>
    obtain ⟨p, hp, hcolon⟩ := strtoul_spec s
    rw [hp] at hs ⊢
    rw [mem_append, not_or]
    refine ⟨hcolon, ?_⟩
    rcases atonParts_cases h with ⟨parts', value', more, rfl, hmore, hrest⟩ | hblank
    · rw [hmore] at hs ⊢
      rw [mem_cons, not_or]
      exact ⟨by decide, ih parts' (Nat.lt_succ_self _) hrest fun c hc => hs c (by simp [hc])⟩
    · cases hr : (strtoul s).2 with
      | nil => simp
      | cons c r =>
        have hc := hblank c (by rw [hr]; rfl)
        rw [hs c (by rw [hr]; simp)] at hc
        cases hc

/-- A text with a colon is no IPv4 address. -/
theorem inetAton_of_colon {s : Bytes} (hs : ∀ c ∈ s, isSpace c = false) (h : ch ':' ∈ s) :
    inetAton s = none := by
  unfold inetAton
  cases ha : atonParts 3 0 s with
  | none => rfl
  | some n => exact absurd h (atonParts_no_colon ha hs)

/-! ## The host of a url -/

variable {u : UrlAuthority}

/-- What it takes for a url to be parsed. -/
theorem parseHttpUrl_eq_some {raw : Bytes} (h : parseHttpUrl raw = some u) :
    ∃ a host port? port, splitAuthority raw = some a ∧
      splitHostPort a.hostport = some (host, port?) ∧
      host ≠ [] ∧ urlPort a.scheme port? = some port ∧
        (toLowerAscii host).any isBadHostByte = false ∧
      u = classified a (toLowerAscii host) port := by
  obtain ⟨a, ha, h⟩ := Option.bind_eq_some_iff.1 h
  obtain ⟨⟨host, port?⟩, hs, h⟩ := Option.bind_eq_some_iff.1 h
  have hne : host ≠ [] := by
    rintro rfl
    simp at h
  dsimp only at h
  rw [if_neg hne] at h
  obtain ⟨port, hp, h⟩ := Option.bind_eq_some_iff.1 h
  split_ifs at h with hbad
  exact ⟨a, host, port?, port, ha, hs, hne, hp, by simpa using hbad, (Option.some.inj h).symm⟩

section Host

variable {t raw after : Bytes} {x : V6Text} (h : readV6 t = some x) {a : Authority}
include h

theorem not_mem_of_readV6 {c : UInt8}
    (hc : ¬ (isHexDigit c = true ∨ c = ch ':' ∨ c = ch '.')) : c ∉ t :=
  fun hm => hc (readV6_chars h c hm)

theorem cStr_of_readV6 : cStr t = t := takeWhile_ne_of_not_mem (not_mem_of_readV6 h (by decide))

/-- **An IPv6 text is its own canonical form.** -/
theorem classifyHostLiteral_v6 : classifyHostLiteral t = ⟨true, t⟩ := by
  have hdrop : ∀ c ∈ dropTrailing (ch '.') t, c ∈ t := by
    intro c hc
    unfold dropTrailing at hc
    split_ifs at hc
    · exact mem_of_mem_dropLast hc
    · exact hc
  -- a colon is left when the dot at the end is dropped, and no IPv4 form has one
  have hcolon : ch ':' ∈ dropTrailing (ch '.') t := by
    have hm := colon_mem_of_readV6 h
    unfold dropTrailing
    split_ifs with hl
    · obtain ⟨p, rfl⟩ := getLast?_eq_some_iff.1 hl
      rw [dropLast_concat]
      rcases mem_append.1 hm with hm | hm
      · exact hm
      · exact absurd (mem_singleton.1 hm) (by decide)
    · exact hm
  have hnul : (0 : UInt8) ∉ dropTrailing (ch '.') t :=
    fun hm => not_mem_of_readV6 h (by decide) (hdrop 0 hm)
  have haton : inetAton (cStr (dropTrailing (ch '.') t)) = none := by
    rw [cStr, takeWhile_ne_of_not_mem hnul]
    refine inetAton_of_colon (fun c hc => ?_) hcolon
    have hspace : ∀ c : UInt8, isHexDigit c = true ∨ c = ch ':' ∨ c = ch '.' →
        isSpace c = false := by
      decide +kernel
    exact hspace c (readV6_chars h c (hdrop c hc))
  have hne : dropTrailing (ch '.') t ≠ [] := ne_nil_of_mem hcolon
  unfold classifyHostLiteral
  dsimp only
  rw [isCanonicalV4_of_colon hcolon, if_neg Bool.false_ne_true, if_neg hne, haton]
  dsimp only
  rw [takeWhile_ne_of_not_mem (not_mem_of_readV6 h (by decide)), cStr_of_readV6 h,
    inetPton6, h, if_pos]
  exact ⟨ne_nil_of_mem (colon_mem_of_readV6 h), rfl⟩

/-- No address is a metadata name. -/
theorem isBlockedHostLiteral_v6 : isBlockedHostLiteral t = false := by
  have hm : ch 'm' ∉ toLowerAscii t := by
    intro hm
    obtain ⟨c, hc, hlow⟩ := mem_map.1 hm
    have key : ∀ c : UInt8, lowerChar c = ch 'm' →
        ¬ (isHexDigit c = true ∨ c = ch ':' ∨ c = ch '.') := by
      decide +kernel
    exact key c hlow (readV6_chars h c hc)
  have hdrop : ∀ s : Bytes, ch 'm' ∉ s → ch 'm' ∉ dropTrailing (ch '.') s := by
    intro s hs hms
    unfold dropTrailing at hms
    split_ifs at hms
    · exact hs (mem_of_mem_dropLast hms)
    · exact hs hms
  have hnot : ∀ s : Bytes, ch 'm' ∉ s →
      ¬ (s = lit "metadata" ∨ s = lit "metadata.google.internal") := by
    rintro s hs (rfl | rfl)
    · exact hs (by decide)
    · exact hs (by decide)
  unfold isBlockedHostLiteral
  rw [decide_eq_false_iff_not]
  apply hnot
  apply hdrop
  split_ifs
  · intro hms
    exact hm (mem_of_mem_tail (mem_of_mem_dropLast hms))
  · exact hm

/-- A bracketed host, with or without a port. -/
theorem splitHostPort_bracketed (after : Bytes) :
    splitHostPort (ch '[' :: (t ++ ch ']' :: after)) =
      match after with
      | [] => some (t, none)
      | c :: port => if c = ch ':' then some (t, some port) else none := by
  have hclose : ch ']' ∉ ch '[' :: t := by
    rw [mem_cons, not_or]
    exact ⟨by decide, not_mem_of_readV6 h (by decide)⟩
  have hfind : find (lit "]") (ch '[' :: (t ++ ch ']' :: after)) = some (t.length + 1) :=
    find_byte hclose
  unfold splitHostPort
  rw [if_pos (show (ch '[' :: _).head? = some (ch '[') from rfl), hfind]
  cases after <;> simp

/-- What the parser makes of a bracketed address, if it accepts the url. -/
theorem parseHttpUrl_bracketed (ha : splitAuthority raw = some a)
    (hp : a.hostport = ch '[' :: (t ++ ch ']' :: after))
    (hu : parseHttpUrl raw = some u) :
    u.scheme = a.scheme ∧ u.host = toLowerAscii t ∧ u.hostIsIpLiteral = true := by
  obtain ⟨a', host, port?, port, ha', hsplit, -, -, -, rfl⟩ := parseHttpUrl_eq_some hu
  obtain rfl := Option.some.inj (ha.symm.trans ha')
  have hhost : host = t := by
    rw [hp, splitHostPort_bracketed h] at hsplit
    cases after with
    | nil => exact (Prod.mk.inj (Option.some.inj hsplit)).1.symm
    | cons c port =>
      dsimp only at hsplit
      split_ifs at hsplit
      exact (Prod.mk.inj (Option.some.inj hsplit)).1.symm
  rw [hhost, classified, classifyHostLiteral_v6 (readV6_lower h)]
  exact ⟨rfl, rfl, rfl⟩

/-- Letter case makes no difference to the verdict. -/
theorem isPrivateIp_lower : isPrivateIp (toLowerAscii t) = isPrivateIp t := by
  rw [Bool.eq_iff_iff, isPrivateIp_iff (readV6_lower h), isPrivateIp_iff h, lower_lower]

/-- **A url whose host is an address**: refused if malformed, or if the address is caught. -/
theorem resolveSafe_bracketed (addrs : List Bytes)
    (ha : splitAuthority raw = some a) (hscheme : isAllowedScheme a.scheme = true)
    (hp : a.hostport = ch '[' :: (t ++ ch ']' :: after)) :
    resolveSafe raw addrs = none ↔ parseHttpUrl raw = none ∨ isPrivateIp t = true := by
  unfold resolveSafe
  cases hu : parseHttpUrl raw with
  | none => simp
  | some u =>
    obtain ⟨hs, hhost, hlit⟩ := parseHttpUrl_bracketed h ha hp hu
    simp [hs, hscheme, hhost, isBlockedHostLiteral_v6 (readV6_lower h), hlit, isPrivateIp_lower h]

end Host

/-! ## Resolved addresses -/

/-- **A url whose host is a name**: one bad address is enough. -/
theorem resolveSafe_resolved {raw : Bytes} {addrs : List Bytes}
    (hu : parseHttpUrl raw = some u) (hscheme : isAllowedScheme u.scheme = true)
    (hname : u.hostIsIpLiteral = false) (hne : addrs ≠ []) :
    resolveSafe raw addrs = none ↔ isBlockedHostLiteral u.host = true ∨ ∃ a ∈ addrs,
      isPrivateIp a = true := by
  rw [← any_eq_true]
  unfold resolveSafe
  simp only [hu, hscheme, hname, hne, Bool.true_eq_false, Bool.false_eq_true, if_false]
  split_ifs with hblocked hany
  · simp [hblocked]
  · exact ⟨fun _ => .inr hany, fun _ => rfl⟩
  · simp only [false_iff, not_or]
    exact ⟨hblocked, hany⟩

/-! ## The verdict and the spelling -/

/-- **The verdict follows the spelling.** A restricted address is caught exactly when it is
spelled plainly. All spellings of an address fare alike exactly when its bytes force the rules
or none of its spellings can trip one. A url whose host is a restricted address is refused
exactly when it is malformed or the address is spelled plainly, and a name that resolves to
one is refused if it is spelled plainly, and, the other addresses being public, only then. -/
theorem verdict_of_spelling {t : Bytes} {x : V6Text} (ht : readV6 t = some x) :
    (Restricted x.bytes → (isPrivateIp t = true ↔ x.Plain)) ∧
    ((∀ t' t'', inetPton6 t' = some x.bytes → inetPton6 t'' = some x.bytes →
      isPrivateIp t' = isPrivateIp t'') ↔ Forced x.bytes ∨ ¬ Catchable x.bytes) ∧
    (∀ raw addrs a after, splitAuthority raw = some a → isAllowedScheme a.scheme = true →
      a.hostport = ch '[' :: (t ++ ch ']' :: after) → Restricted x.bytes →
      (resolveSafe raw addrs = none ↔ parseHttpUrl raw = none ∨ x.Plain)) ∧
    ∀ raw addrs u, parseHttpUrl raw = some u → isAllowedScheme u.scheme = true →
      u.hostIsIpLiteral = false → t ∈ addrs → Restricted x.bytes →
      (x.Plain → resolveSafe raw addrs = none) ∧
      (isBlockedHostLiteral u.host = false → (∀ a ∈ addrs, a ≠ t → isPrivateIp a = false) →
        (resolveSafe raw addrs = none ↔ x.Plain)) := by
  refine ⟨isPrivateIp_restricted_iff ht,
    oneVerdict_iff (length_bytes_valid (readV6_spec ht).1), ?_, ?_⟩
  · intro raw addrs a after ha hscheme hp hr
    rw [resolveSafe_bracketed ht addrs ha hscheme hp, isPrivateIp_restricted_iff ht hr]
  · intro raw addrs u hu hscheme hname hmem hr
    rw [resolveSafe_resolved hu hscheme hname
      (ne_nil_of_mem hmem), ← isPrivateIp_restricted_iff ht hr]
    refine ⟨fun hp => .inr ⟨t, hmem, hp⟩, fun hblocked hothers =>
      ⟨?_, fun hp => .inr ⟨t, hmem, hp⟩⟩⟩
    rintro (hb | ⟨a, ha, hp⟩)
    · rw [hblocked] at hb
      cases hb
    · by_cases hat : a = t
      · rwa [← hat]
      · rw [hothers a ha hat] at hp
        cases hp

/-- The loopback address, spelled plainly, on its own and among the resolved addresses. -/
theorem verdict_of_spelling_loopback :
    isPrivateIp (lit "::1") = true ∧ resolveSafe (lit "http://[::1]:8080/") [] = none ∧
      resolveSafe (lit "http://a/") [lit "::1"] = none := by
  have hread : readV6 (lit "::1") = some ⟨[], some [lit "1"], none⟩ := by decide
  have hplain : (⟨[], some [lit "1"], none⟩ : V6Text).Plain :=
    .inr (.inr (.inl ⟨rfl, rfl, .inr rfl⟩))
  have hr : Restricted (⟨[], some [lit "1"], none⟩ : V6Text).bytes := .inr (.inl rfl)
  obtain ⟨hverdict, -, hbracketed, hresolved⟩ := verdict_of_spelling hread
  refine ⟨(hverdict hr).2 hplain, ?_, ?_⟩
  · exact (hbracketed (lit "http://[::1]:8080/") [] ⟨lit "http", false, lit "[::1]:8080"⟩
      (lit ":8080")
      (by decide) (by decide) rfl hr).2 (.inr hplain)
  · exact (hresolved (lit "http://a/") [lit "::1"]
      ((parseHttpUrl (lit "http://a/")).get (by decide))
      (Option.some_get _).symm (by decide) (by decide) mem_cons_self hr).1 hplain

/-- The loopback address with its zeros written out passes for public. -/
theorem verdict_misses_uncompressed_loopback :
    inetPton6 (lit "0:0:0:0:0:0:0:1") = inetPton6 (lit "::1") ∧
    isPrivateIp (lit "::1") = true ∧ isPrivateIp (lit "0:0:0:0:0:0:0:1") = false ∧
    (resolveSafe (lit "http://[0:0:0:0:0:0:0:1]/") []).isSome = true ∧
    (resolveSafe (lit "http://a/") [lit "0:0:0:0:0:0:0:1"]).isSome = true ∧
    isPrivateIp (lit "2001:0db8::1") = false ∧ isPrivateIp (lit "0::ffff:7f00:1") = false := by
  decide

end PageSpeed
