import PageSpeed.Proof.V6Text

/-!
# The verdict on an IPv6 address and its spelling

* `isPrivateIp_iff`: what the textual rules say of an accepted text, in terms of how it is
  written.
* `isPrivateIp_restricted_iff`: which spellings of a restricted address are caught.
-/

namespace PageSpeed

open Wire Inet Inet.V6Text List

/-! ## The octets at the end -/

/-- An octet at the end is taken whole. -/
theorem takeDec_octet {o r : Bytes} (hne : o ≠ []) (hl : o.length ≤ 3)
    (ho : ∀ c ∈ o, isDigit c = true)
    (hr : ∀ c ∈ r.head?, isDigit c = false) : takeDec (o.reverse ++ r) = some r := by
  have htake : (o.reverse ++ r).takeWhile isDigit = o.reverse := by
    rw [takeWhile_append_of_pos (by simpa using ho)]
    cases r with
    | nil => simp
    | cons c r => simp [hr c rfl]
  have hpos := length_pos_iff.2 hne
  unfold takeDec
  rw [htake, length_reverse, Nat.min_eq_right hl]
  dsimp only
  rw [if_neg (by omega), ← length_reverse, drop_left]

/-- **The octets behind a colon are found.** -/
theorem trailingDottedQuad_quad {p q b o₁ o₂ o₃ o₄ : Bytes} (h : Quad q b o₁ o₂ o₃ o₄) :
    trailingDottedQuad (p ++ ch ':' :: q) = some q := by
  have hoct : ∀ o ∈ [o₁, o₂, o₃, o₄], ∀ r : Bytes, (∀ c ∈ r.head?, isDigit c = false) →
      takeDec (o.reverse ++ r) = some r := by
    intro o ho r hr
    obtain ⟨hne, hl, hd, -⟩ := isOctet_iff.1 (h.octet o ho)
    exact takeDec_octet hne hl hd hr
  have hdot : ∀ r : Bytes, ∀ c ∈ (ch '.' :: r).head?, isDigit c = false := by
    rintro r c ⟨⟩
    decide
  have hcolon : ∀ r : Bytes, ∀ c ∈ (ch ':' :: r).head?, isDigit c = false := by
    rintro r c ⟨⟩
    decide
  have hrev : (p ++ ch ':' :: q).reverse = o₄.reverse ++ ch '.' :: (o₃.reverse ++ ch '.' ::
      (o₂.reverse ++ ch '.' :: (o₁.reverse ++ ch ':' :: p.reverse))) := by
    rw [h.text]
    simp
  have htake : ∀ r : Bytes, takeDot (ch '.' :: r) = some r := fun r => rfl
  unfold trailingDottedQuad
  rw [hrev, hoct o₄ (by simp) _ (hdot _)]
  simp only [Option.bind_eq_bind, Option.bind_some, htake]
  rw [hoct o₃ (by simp) _ (hdot _)]
  simp only [Option.bind_some, htake]
  rw [hoct o₂ (by simp) _ (hdot _)]
  simp only [Option.bind_some, htake]
  rw [hoct o₁ (by simp) _ (hcolon _)]
  simp

theorem takeDot_eq_some {r r' : Bytes} (h : takeDot r = some r') : ch '.' ∈ r := by
  cases r with
  | nil => cases h
  | cons c r =>
    rw [takeDot] at h
    split_ifs at h with hc
    rw [hc]
    exact mem_cons_self

variable {s : Bytes}

/-- Without a dot there is no dotted quad. -/
theorem trailingDottedQuad_of_not_mem (h : ch '.' ∉ s) : trailingDottedQuad s = none := by
  unfold trailingDottedQuad
  cases hd : takeDec s.reverse with
  | none => rfl
  | some r =>
    have hsub : ∀ c ∈ r, c ∈ s := by
      unfold takeDec at hd
      dsimp only at hd
      split_ifs at hd
      intro c hc
      rw [← Option.some.inj hd] at hc
      simpa using mem_of_mem_drop hc
    cases hdot : takeDot r with
    | none => simp [hdot]
    | some r' => exact absurd (hsub _ (takeDot_eq_some hdot)) h

theorem join_concat {fs : List Bytes} (hne : fs ≠ []) (q : Bytes) :
    join (fs ++ [q]) = join fs ++ ch ':' :: q := by
  induction fs with
  | nil => exact absurd rfl hne
  | cons f fs ih =>
    cases fs with
    | nil => rw [singleton_append, join_cons_cons, join_single, join_single]
    | cons g fs =>
      rw [cons_append, cons_append, join_cons_cons, join_cons_cons, ← cons_append,
        ih (by simp), append_assoc, cons_append]

section Text

variable {x : V6Text} (hv : x.Valid)
include hv

theorem text_eq_quad {q : Bytes} (hq : x.quad = some q) : ∃ p, x.text = p ++ ch ':' :: q := by
  obtain ⟨left, right, quad⟩ := x
  obtain rfl : quad = some q := hq
  cases right with
  | none =>
    cases left with
    | nil =>
      have hsize := hv.full_size rfl
      rw [hv.length_rightBytes] at hsize
      simp [leftBytes] at hsize
    | cons g left => exact ⟨_, join_concat (cons_ne_nil g left) q⟩
  | some r =>
    cases r with
    | nil => exact ⟨join left ++ [ch ':'], by simp [text, join_single]⟩
    | cons g r =>
      refine ⟨join left ++ ch ':' :: ch ':' :: join (g :: r), ?_⟩
      show join left ++ ch ':' :: ch ':' :: join ((g :: r) ++ [q]) = _
      rw [join_concat (cons_ne_nil g r)]
      simp

theorem dot_not_mem_text (hq : x.quad = none) : ch '.' ∉ x.text := by
  have hgroup : ∀ g, isGroup g = true → ch '.' ∉ g :=
    fun g hg hm => (hex_ne _ ((isGroup_iff.1 hg).2.2 _ hm)).2 rfl
  have hleft := not_mem_join (c := ch '.') (by decide) fun f hf => hgroup f (hv.left f hf)
  obtain ⟨left, right, quad⟩ := x
  obtain rfl : quad = none := hq
  cases right with
  | none => simpa [text] using hleft
  | some r =>
    have hright := not_mem_join (c := ch '.') (by decide) fun f hf => hgroup f (hv.right f hf)
    rw [text, mem_append, mem_cons, mem_cons, not_or, not_or, not_or]
    exact ⟨hleft, by decide, by decide, by simpa using hright⟩

/-- The octets of a text decide for themselves. -/
theorem trailingDottedQuad_text : trailingDottedQuad x.text = x.quad := by
  cases hq : x.quad with
  | none => exact trailingDottedQuad_of_not_mem (dot_not_mem_text hv hq)
  | some q =>
    obtain ⟨p, hp⟩ := text_eq_quad hv hq
    obtain ⟨b, hb⟩ := hv.quad q hq
    obtain ⟨o₁, o₂, o₃, o₄, hquad⟩ := quad_of_inetPton4 hb
    rw [hp, trailingDottedQuad_quad hquad]

end Text

/-! ## What the rules see -/

namespace Inet.V6Text

variable (x : V6Text)

/-- Written "::" or "::1". -/
def Exact : Prop :=
  x.left = [] ∧ x.quad = none ∧ (x.right = some [] ∨ x.right = some [lit "1"])

/-- The octets are those of an address that is not public. -/
def PrivateQuad : Prop := ∃ q, x.quad = some q ∧ isPrivateV4 q = true

/-- Written "::ffff:" and more. -/
def OpensMapped : Prop := x.left = [] ∧ ∃ f rest, x.tail = lit "ffff" :: f :: rest

/-- The first group is written with the digits of a reserved block. -/
def LeadsReserved : Prop :=
  ∃ g rest, x.left = g :: rest ∧ ((lit "fc" <+: g ∨ lit "fd" <+: g) ∨
    (lit "fe8" <+: g ∨ lit "fe9" <+: g ∨ lit "fea" <+: g ∨ lit "feb" <+: g) ∨ lit "ff" <+: g)

/-- Written "2001:db8". -/
def OpensDocs : Prop := ∃ k rest, x.left = lit "2001" :: k :: rest ∧ lit "db8" <+: k

/-- The spelling trips a rule. -/
def Trips : Prop :=
  x.Exact ∨ x.PrivateQuad ∨ x.OpensMapped ∨ x.LeadsReserved ∨ x.OpensDocs

end Inet.V6Text

/-- What the rules look for in the first group. -/
def ReservedText (g : Bytes) : Prop :=
  (lit "fc" <+: g ∨ lit "fd" <+: g) ∨
    (lit "fe8" <+: g ∨ lit "fe9" <+: g ∨ lit "fea" <+: g ∨ lit "feb" <+: g) ∨ lit "ff" <+: g

variable {rest : List Bytes} {x : V6Text} {r g : Bytes} {hi lo : UInt8}

section Rules

variable {x : V6Text} (hv : x.Valid)
include hv

/-- The dotted quad that the guard finds is the one that is read. -/
theorem any_trailingDottedQuad_iff : (trailingDottedQuad x.text).any isPrivateV4 = true ↔
    x.PrivateQuad := by
  rw [trailingDottedQuad_text hv]
  unfold PrivateQuad
  cases x.quad <;> simp

/-- The two addresses that are compared as texts. -/
theorem exact_iff (hl : x.left = []) (hr : x.right ≠ none) : x.Exact ↔ x.tail = [lit "1"] ∨
    x.tail = [] := by
  obtain ⟨left, right, quad⟩ := x
  obtain ⟨r, rfl⟩ := Option.ne_none_iff_exists'.1 hr
  unfold Exact V6Text.tail
  cases quad with
  | none =>
    simp only [Option.getD_some, Option.toList_none, append_nil, Option.some.injEq]
    tauto
  | some q =>
    -- "1" alone is no octets
    have hq : q ≠ lit "1" := by
      rintro rfl
      obtain ⟨b, hb⟩ := hv.quad _ rfl
      rw [show inetPton4 (lit "1") = none by decide] at hb
      cases hb
    simp only [Option.getD_some, Option.toList_some, reduceCtorEq, false_and, and_false, false_iff,
      not_or]
    refine ⟨fun h => ?_, by simp⟩
    cases r with
    | nil => exact hq (singleton_inj.1 h)
    | cons g r => simp at h

/-- The prefix of a mapped address, by its groups. -/
theorem opensMapped_iff (hl : x.left = []) : lit "ffff:" <+: join x.tail ↔ x.OpensMapped := by
  rw [show lit "ffff:" = lit "ffff" ++ [ch ':'] from rfl,
    startsWith_join_iff (by decide) fun f hf => (hv.tail_field hf).2]
  exact ⟨fun h => ⟨hl, h⟩, fun h => h.2⟩

/-- The rules for a text that starts with a group. -/
theorem rules_of_group {g R : Bytes} (hl : x.left = g :: rest)
    (ht : x.text = g ++ ch ':' :: R) :
    x.text ≠ lit "::1" ∧ x.text ≠ lit "::" ∧ ¬ lit "::ffff:" <+: x.text ∧
      (∀ p, ch ':' ∉ p → (p <+: x.text ↔ p <+: g)) ∧
      (lit "2001:db8" <+: x.text ↔ lit "2001" = g ∧ lit "db8" <+: R) := by
  obtain ⟨hne, -, hhex⟩ := isGroup_iff.1 (hv.left g (by rw [hl]; exact mem_cons_self))
  have hcolon : ch ':' ∉ g := fun hc => (hex_ne _ (hhex _ hc)).1 rfl
  have hhead : ∀ t, x.text ≠ ch ':' :: t := by
    intro t h
    obtain ⟨c, g', rfl⟩ := exists_cons_of_ne_nil hne
    rw [ht, cons_append, cons.injEq] at h
    exact hcolon (by rw [h.1]; exact mem_cons_self)
  refine ⟨hhead _, hhead _, ?_, ?_, ?_⟩
  · rintro ⟨t, h⟩
    exact hhead _ h.symm
  · intro p hp
    rw [ht, startsWith_until_iff hp]
  · rw [ht, show lit "2001:db8" = lit "2001" ++ ch ':' :: lit "db8" from rfl,
      startsWith_delim_iff (by decide) hcolon]

/-- The rules as they are applied to the text. -/
def TextRules (s : Bytes) : Prop :=
  s = lit "::1" ∨ s = lit "::" ∨ (trailingDottedQuad s).any isPrivateV4 = true ∨
    lit "::ffff:" <+: s ∨ (lit "fc" <+: s ∨ lit "fd" <+: s) ∨
    (lit "fe8" <+: s ∨ lit "fe9" <+: s ∨ lit "fea" <+: s ∨ lit "feb" <+: s) ∨
    lit "ff" <+: s ∨ lit "2001:db8" <+: s

/-- The rules on a text that starts with a group. -/
theorem rules_iff_of_group {g R : Bytes} (hl : x.left = g :: rest)
    (ht : x.text = g ++ ch ':' :: R) (hdocs : lit "2001" = g ∧ lit "db8" <+: R ↔ x.OpensDocs) :
    TextRules x.text ↔ x.Trips := by
  obtain ⟨hone, hnil, hmapped, hstart, hdoc⟩ := rules_of_group hv hl ht
  have hexact : ¬ x.Exact := by rintro ⟨h, -⟩; rw [hl] at h; cases h
  have hopens : ¬ x.OpensMapped := by rintro ⟨h, -⟩; rw [hl] at h; cases h
  have hlead : x.LeadsReserved ↔ ReservedText g := by
    constructor
    · rintro ⟨g', rest', h, hg⟩
      rw [hl, cons.injEq] at h
      rwa [h.1]
    · intro hg
      exact ⟨g, rest, hl, hg⟩
  unfold TextRules Trips
  simp (disch := decide) only [any_trailingDottedQuad_iff hv, hone, hnil, hmapped, hexact, hopens,
    hdoc, hdocs, hlead, ReservedText, hstart, false_or, or_assoc]

/-- The rules on a text that starts with `::`. -/
theorem rules_iff_of_open (hl : x.left = []) (hr : x.right ≠ none)
    (ht : x.text = ch ':' :: ch ':' :: join x.tail) : TextRules x.text ↔ x.Trips := by
  have hlead : ¬ x.LeadsReserved := by rintro ⟨g, rest, h, -⟩; rw [hl] at h; cases h
  have hdocs : ¬ x.OpensDocs := by rintro ⟨k, rest, h, -⟩; rw [hl] at h; cases h
  have hhead : ∀ p : Bytes, p.head? ≠ none ∧ p.head? ≠ some (ch ':') → ¬ p <+: x.text := by
    rintro p ⟨hne, hc⟩ hp
    obtain ⟨c, hc'⟩ := Option.ne_none_iff_exists'.1 hne
    obtain ⟨p, rfl⟩ := head?_eq_some_iff.1 hc'
    rw [ht] at hp
    exact hc (congrArg some (cons_prefix_cons.1 hp).1)
  have hmapped : lit "::ffff:" <+: x.text ↔ x.OpensMapped := by
    rw [← opensMapped_iff hv hl, ht, show lit "::ffff:" = ch ':' :: ch ':' :: lit "ffff:" from rfl,
      cons_prefix_cons, cons_prefix_cons]
    simp
  have hone : x.text = lit "::1" ↔ x.tail = [lit "1"] := by
    rw [ht, show lit "::1" = ch ':' :: ch ':' :: lit "1" from rfl, cons.injEq, cons.injEq,
      join_eq_single_iff (by decide) (by decide)]
    simp
  have hnil : x.text = lit "::" ↔ x.tail = [] := by
    rw [ht, show lit "::" = ch ':' :: ch ':' :: [] from rfl, cons.injEq, cons.injEq,
      join_eq_nil_iff fun f hf => (hv.tail_field hf).1]
    simp
  unfold TextRules Trips
  simp (disch := decide) only [any_trailingDottedQuad_iff hv, hone, hnil, hmapped,
    exact_iff hv hl hr, hhead]
  tauto

/-- **The textual rules, told by the spelling.** -/
theorem rules_iff_trips : TextRules x.text ↔ x.Trips := by
  rcases hv.cases with ⟨hl, hr, ht⟩ | ⟨g, hl, -, ht⟩ | ⟨g, k, rest, K, hl, ht, hK⟩
  · exact rules_iff_of_open hv hl hr ht
  · refine rules_iff_of_group hv hl ht ⟨fun h => absurd h.2 ?_, ?_⟩
    · intro hp
      exact absurd (cons_prefix_cons.1 hp).1 (by decide)
    · rintro ⟨k, rest, h, -⟩
      rw [hl] at h
      cases h
  · have hk : lit "db8" <+: k ++ K ↔ lit "db8" <+: k := by
      rcases hK with rfl | hK
      · rw [append_nil]
      · obtain ⟨K', rfl⟩ := head?_eq_some_iff.1 hK
        exact startsWith_until_iff (by decide)
    refine rules_iff_of_group hv hl ht ?_
    rw [hk]
    constructor
    · rintro ⟨rfl, h⟩
      exact ⟨k, rest, hl, h⟩
    · rintro ⟨k', rest', h, hp⟩
      rw [hl, cons.injEq, cons.injEq] at h
      obtain ⟨rfl, rfl, -⟩ := h
      exact ⟨rfl, hp⟩

end Rules

/-- The guard is its rules, on the text in lower case. -/
theorem isPrivateV6_iff_rules (h : ch '%' ∉ s) : isPrivateV6 s = true ↔
    TextRules (toLowerAscii s) := by
  have hpct : ch '%' ∉ toLowerAscii s := by
    rwa [toLowerAscii, mem_map_fixed_iff (lowerChar_eq_iff (by decide))]
  unfold isPrivateV6 TextRules
  simp only [takeWhile_ne_of_not_mem hpct, decide_eq_true_eq]

/-- A canonical quad is what `inet_pton` reads. -/
theorem isCanonicalV4_eq (s : Bytes) : isCanonicalV4 s = (inetPton4 s).isSome := by
  unfold isCanonicalV4 inetPton4
  dsimp only
  split_ifs with h
  · rw [Option.isSome_some, decide_eq_true_eq]
    exact ⟨h.2, h.1⟩
  · rw [Option.isSome_none, decide_eq_false_iff_not]
    exact fun h' => h ⟨h'.2, h'.1⟩

theorem isCanonicalV4_of_mem {c : UInt8} (hc : ¬ (isDigit c = true ∨ c = ch '.')) (h : c ∈ s) :
    isCanonicalV4 s = false := by
  rw [isCanonicalV4_eq]
  cases hb : inetPton4 s with
  | none => rfl
  | some b =>
    obtain ⟨o₁, o₂, o₃, o₄, hq⟩ := quad_of_inetPton4 hb
    exact absurd (hq.mem_text h) hc

theorem isCanonicalV4_of_colon (h : ch ':' ∈ s) : isCanonicalV4 s = false :=
  isCanonicalV4_of_mem (by decide) h

/-- **The verdict on an accepted text.** -/
theorem isPrivateIp_iff {t : Bytes} (h : readV6 t = some x) : isPrivateIp t = true ↔
    x.lower.Trips := by
  have hchars := readV6_chars h
  have hnul : (0 : UInt8) ∉ t := fun hm => absurd (hchars 0 hm) (by decide)
  have hpct : ch '%' ∉ t := fun hm => absurd (hchars _ hm) (by decide)
  have hv4 := isCanonicalV4_of_colon (colon_mem_of_readV6 h)
  obtain ⟨hv, ht⟩ := readV6_spec (readV6_lower h)
  unfold isPrivateIp
  rw [if_neg hnul, if_neg (by simp [hv4]), cStr, takeWhile_ne_of_not_mem hnul, inetPton6, h,
    if_pos (by simp), isPrivateV6_iff_rules hpct, ← ht, rules_iff_trips hv]

/-! ## Restricted addresses -/

namespace Inet

variable (b : Bytes)

/-- The ranges that are not public: `::`. -/
def Unspecified : Prop := b = List.replicate 16 0

/-- `::1`. -/
def Loopback : Prop := b = List.replicate 15 0 ++ [1]

/-- `fc00::/7`. -/
def UniqueLocal : Prop := b.getD 0 0 &&& 0xfe = 0xfc

/-- `fe80::/10`. -/
def LinkLocal : Prop := b.getD 0 0 = 0xfe ∧ b.getD 1 0 &&& 0xc0 = 0x80

/-- `ff00::/8`. -/
def Multicast : Prop := b.getD 0 0 = 0xff

/-- `2001:db8::/32`. -/
def Documentation : Prop := [0x20, 0x01, 0x0d, 0xb8] <+: b

/-- `::ffff:0:0/96`. -/
def Mapped : Prop := List.replicate 10 0 ++ [0xff, 0xff] <+: b

/-- The blocks that only a first group of four digits can spell. -/
def Wide : Prop := UniqueLocal b ∨ LinkLocal b ∨ Multicast b

/-- One of the ranges that the guard knows. -/
def Restricted : Prop :=
  Unspecified b ∨ Loopback b ∨ Wide b ∨ Documentation b ∨ Mapped b

instance (b : Bytes) : Decidable (UniqueLocal b) := inferInstanceAs (Decidable (_ = _))
instance (b : Bytes) : Decidable (LinkLocal b) := inferInstanceAs (Decidable (_ ∧ _))
instance (b : Bytes) : Decidable (Multicast b) := inferInstanceAs (Decidable (_ = _))
instance (b : Bytes) : Decidable (Documentation b) := inferInstanceAs (Decidable (_ <+: _))
instance (b : Bytes) : Decidable (Mapped b) := inferInstanceAs (Decidable (_ <+: _))
instance (b : Bytes) : Decidable (Wide b) := inferInstanceAs (Decidable (_ ∨ _ ∨ _))

/-- A spelling that the rules see through: any one of a unique local, link-local or multicast
address; the documentation block without a leading zero in its second group; exactly "::" and
"::1"; a mapped address whose "::" stands for all zero groups; octets of a private address. -/
def V6Text.Plain (x : V6Text) : Prop :=
  Wide x.bytes ∨
  (Documentation x.bytes ∧ ∃ g k rest, x.left = g :: k :: rest ∧ k.length = 3) ∨
  x.Exact ∨
  (Mapped x.bytes ∧ x.left = [] ∧ ∃ g rest, x.right = some (g :: rest) ∧ numeral 16 g ≠ 0) ∨
  x.PrivateQuad

end Inet

theorem exact_lower_iff (x : V6Text) : x.lower.Exact ↔ x.Exact := by
  have hone : ∀ g : Bytes, toLowerAscii g = lit "1" ↔ g = lit "1" := by
    intro g
    have hc : ∀ c : UInt8, (lowerChar c = ch '1' ↔ c = ch '1') := lowerChar_eq_iff (by decide)
    rcases g with _ | ⟨c, _ | ⟨d, g⟩⟩
    · exact ⟨fun h => (by cases h), fun h => (by cases h)⟩
    · simp [toLowerAscii, lit, hc]
    · simp [toLowerAscii, lit]
  obtain ⟨left, right, quad⟩ := x
  unfold Exact lower
  cases right with
  | none => simp
  | some r =>
    rcases r with _ | ⟨g, _ | ⟨k, r⟩⟩
    · simp
    · simp [hone]
    · simp

theorem lowerChar_octets : ∀ c : UInt8, isDigit c = true ∨ c = ch '.' → lowerChar c = c := by
  decide +kernel

/-- Case does not matter to the quad. -/
theorem privateQuad_lower_iff (hv : x.Valid) : x.lower.PrivateQuad ↔ x.PrivateQuad := by
  unfold PrivateQuad lower
  cases hq : x.quad with
  | none => simp
  | some q =>
    obtain ⟨b, hb⟩ := hv.quad q hq
    obtain ⟨o₁, o₂, o₃, o₄, hquad⟩ := quad_of_inetPton4 hb
    have hlow : toLowerAscii q = q := by
      unfold toLowerAscii
      conv_rhs => rw [← map_id q]
      exact map_congr_left fun c hc => lowerChar_octets c (hquad.mem_text hc)
    simp only [Option.map_some, hlow]

theorem wide_cons_iff : Wide (hi :: lo :: r) ↔
    hi &&& 0xfe = 0xfc ∨ (hi = 0xfe ∧ lo &&& 0xc0 = 0x80) ∨ hi = 0xff := Iff.rfl

/-- The first sixteen bits of a wide block. -/
theorem wide_range (h : Wide (hi :: lo :: r)) :
    hi.toNat = 252 ∨ hi.toNat = 253 ∨ (hi.toNat = 254 ∧ 128 ≤ lo.toNat ∧ lo.toNat < 192) ∨
      hi.toNat = 255 := by
  have hul : ∀ b : UInt8, b &&& 0xfe = 0xfc → b.toNat = 252 ∨ b.toNat = 253 := by decide +kernel
  have hll : ∀ b : UInt8, b &&& 0xc0 = 0x80 → 128 ≤ b.toNat ∧ b.toNat < 192 := by decide +kernel
  rcases wide_cons_iff.1 h with hhi | ⟨rfl, hlo⟩ | rfl
  · rcases hul hi hhi with h | h
    · exact .inl h
    · exact .inr (.inl h)
  · exact .inr (.inr (.inl ⟨rfl, hll lo hlo⟩))
  · exact .inr (.inr (.inr rfl))

/-- The digits in lower case. -/
def hexDigits : Bytes := lit "0123456789abcdef"

theorem lowerChar_of_hex : ∀ c : UInt8, isHexDigit c = true →
    lowerChar c = hexDigits.getD (digitValue c) 0 := by
  decide +kernel

/-- A group with a high value is written in full. -/
theorem length_group_of_le (hg : isGroup g = true) (h : 4096 ≤ numeral 16 g) : g.length = 4 := by
  have hlt := numeral_lt g
  have hle := (isGroup_iff.1 hg).2.1
  by_contra hne
  have : 16 ^ g.length ≤ 16 ^ 3 := Nat.pow_le_pow_right (by decide) (by omega)
  omega

/-- A group of known length and number is known up to letter case. -/
theorem lower_of_numeral {g t : Bytes} {n : ℕ} (hg : isGroup g = true) (hn : numeral 16 g = n)
    (hl : g.length = t.length) (ht : t.all isHexDigit = true ∧ numeral 16 t = n) :
    toLowerAscii g = toLowerAscii t :=
  lower_eq_of_numeral (isGroup_iff.1 hg).2.2 (all_eq_true.1 ht.1) hl (hn.trans ht.2.symm)

/-- Two digits make a byte. -/
theorem digits_of_group {a b c d hi lo : UInt8}
    (h : numeral 16 [a, b, c, d] = hi.toNat * 256 + lo.toNat) :
    digitValue a * 16 + digitValue b = hi.toNat ∧ digitValue c * 16 + digitValue d = lo.toNat := by
  have hnum : numeral 16 [a, b, c, d] =
      ((digitValue a * 16 + digitValue b) * 16 + digitValue c) * 16 + digitValue d := by
    simp [numeral]
  have hc := digitValue_lt c
  have hd := digitValue_lt d
  have hlo := lo.toNat_lt
  omega

theorem ReservedText.append {g : Bytes} (h : ReservedText g) (t : Bytes) :
    ReservedText (g ++ t) := by
  unfold ReservedText at *
  rcases h with (h | h) | (h | h | h | h) | h <;> simp [h.trans (prefix_append g t)]

/-- The first digits of a reserved range. -/
theorem reserved_of_digits {a b c : UInt8} (d : UInt8) (ha : isHexDigit a = true)
    (hb : isHexDigit b = true) (hc : isHexDigit c = true) (hf : digitValue a = 15)
    (h : digitValue b = 12 ∨ digitValue b = 13 ∨
      (digitValue b = 14 ∧ 8 ≤ digitValue c ∧ digitValue c ≤ 11) ∨ digitValue b = 15) :
    ReservedText (toLowerAscii [a, b, c, d]) := by
  have hkey : ∀ b c : Fin 16, b = 12 ∨ b = 13 ∨ (b = 14 ∧ 8 ≤ c ∧ c ≤ 11) ∨ b = 15 →
      ReservedText [hexDigits.getD 15 0, hexDigits.getD b 0, hexDigits.getD c 0] := by
    unfold ReservedText
    decide
  have hlow : toLowerAscii [a, b, c, d] =
      [hexDigits.getD 15 0, hexDigits.getD (digitValue b) 0, hexDigits.getD (digitValue c) 0] ++
        [lowerChar d] := by
    rw [← hf, ← lowerChar_of_hex a ha, ← lowerChar_of_hex b hb, ← lowerChar_of_hex c hc]
    rfl
  rw [hlow]
  exact (hkey ⟨_, digitValue_lt b⟩ ⟨_, digitValue_lt c⟩
    (by simpa [Fin.ext_iff, Fin.le_def] using h)).append _

/-- The first group of a reserved block has four digits, and they show. -/
theorem leadsReserved_of_wide (hv : x.Valid) (hw : Wide x.bytes) : x.lower.LeadsReserved := by
  cases hl : x.left with
  -- with no group on the left the first byte is zero
  | nil =>
    have hr : x.right ≠ none := by
      rcases hv.cases with ⟨-, hr, -⟩ | ⟨g, h, -⟩ | ⟨g, k, rest, K, h, -⟩
      · exact hr
      · rw [hl] at h; cases h
      · rw [hl] at h; cases h
    obtain ⟨r, hb⟩ := hv.bytes_open hr
    rw [hb, leftBytes, hl] at hw
    rcases wide_range (r := r) hw with h | h | h | h
    · cases h
    · cases h
    · exact absurd h.1 (by decide)
    · cases h
  | cons g rest =>
    have hg := hv.left g (by rw [hl]; exact mem_cons_self)
    obtain ⟨hi, lo, r, hb, hn⟩ := hv.bytes_group hl
    rw [hb] at hw
    have hrange := wide_range hw
    refine ⟨toLowerAscii g, rest.map toLowerAscii, by simp [lower, hl], ?_⟩
    -- a group in one of the ranges has all four digits
    have hlen := length_group_of_le hg (by omega)
    obtain ⟨a, b, c, d, rfl⟩ := length_eq_four.1 hlen
    have hhex := (isGroup_iff.1 hg).2.2
    obtain ⟨hhi, hlo⟩ := digits_of_group hn
    have hb' := digitValue_lt b
    have hd' := digitValue_lt d
    clear hn
    exact reserved_of_digits d (hhex a (by simp)) (hhex b (by simp)) (hhex c (by simp))
      (by omega) (by omega)

section Restricted

variable {x : V6Text}

theorem left_of_lower (h : x.lower.left = g :: rest) : ∃ g' rest', x.left = g' :: rest' ∧
    toLowerAscii g' = g := by
  obtain ⟨g', rest', hl, hg, -⟩ := map_eq_cons_iff.1 h
  exact ⟨g', rest', hl, hg⟩

/-- Neither rule on the first group fires when that group is zero. -/
theorem not_leads_of_zero (hv : x.Valid) (hb : x.bytes = 0 :: 0 :: r) :
    ¬ x.lower.LeadsReserved ∧ ¬ x.lower.OpensDocs := by
  have key : ∀ (g : Bytes) (rest : List Bytes) (c : UInt8), x.lower.left = g :: rest → c ∈ g →
      digitValue c = 0 := by
    intro g rest c hl hc
    obtain ⟨g, rest, hleft, rfl⟩ := left_of_lower hl
    obtain ⟨hi, lo, r', hb', hn⟩ := hv.bytes_group hleft
    rw [hb, cons.injEq, cons.injEq] at hb'
    obtain ⟨rfl, rfl, -⟩ := hb'
    by_contra hd
    have := numeral_ne_zero hc hd
    rw [numeral_lower] at this
    exact this hn
  constructor
  · rintro ⟨g, rest, hl, hg⟩
    have hf : ch 'f' ∈ g := by
      rcases hg with (h | h) | (h | h | h | h) | h <;> exact h.subset (by decide)
    exact absurd (key g rest _ hl hf) (by decide)
  · rintro ⟨k, rest, hl, -⟩
    exact absurd (key _ _ (ch '2') hl (by decide)) (by decide)

/-- The bytes of these two addresses. -/
theorem bytes_of_exact (h : x.Exact) : Unspecified x.bytes ∨ Loopback x.bytes := by
  obtain ⟨left, right, quad⟩ := x
  obtain ⟨rfl, rfl, rfl | rfl⟩ : left = [] ∧ quad = none ∧
      (right = some [] ∨ right = some [lit "1"]) := h
  · left; rfl
  · right; rfl

/-- How a text starts that is taken for a mapped address. -/
theorem right_of_opensMapped (h : x.lower.OpensMapped) :
    x.left = [] ∧ ∃ g rest, x.right = some (g :: rest) ∧ numeral 16 g = 65535 := by
  obtain ⟨hl, f, rest, ht⟩ := h
  refine ⟨map_eq_nil_iff.1 hl, ?_⟩
  rw [V6Text.tail, right_lower] at ht
  obtain ⟨left, right, quad⟩ := x
  rcases right with _ | _ | ⟨g, r⟩
  · have := congrArg List.length ht
    cases quad <;> simp [lower] at this
  · have := congrArg List.length ht
    cases quad <;> simp [lower] at this
  · refine ⟨g, r, rfl, ?_⟩
    have hg : toLowerAscii g = lit "ffff" := (cons.inj ht).1
    rw [← numeral_lower, hg]
    decide

theorem not_opensMapped_of_small (h : 255 ∉ x.bytes) : ¬ x.lower.OpensMapped := by
  intro hm
  obtain ⟨hl, g, rest, hr, hn⟩ := right_of_opensMapped hm
  apply h
  have hb : groupBytes g = [255, 255] := by rw [groupBytes_eq, hn]; rfl
  rw [bytes, rightBytes, hr]
  simp [hb]

/-- Where the "::" of a mapped address stands for all its zero groups, the next is "ffff". -/
theorem opensMapped_of_mapped (hv : x.Valid) (hm : Mapped x.bytes) (hl : x.left = [])
    (hr : x.right = some (g :: rest)) (hg : numeral 16 g ≠ 0) : x.lower.OpensMapped := by
  have hgroup := hv.right g (by rw [hr]; exact mem_cons_self)
  obtain ⟨hi, lo, hgb, hn⟩ := exists_groupBytes hgroup
  obtain ⟨T, hT⟩ := hm
  have hsize := hv.open_size (by rw [hr]; simp)
  have hlen := hv.length_rightBytes
  obtain ⟨R, hR⟩ : ∃ R, x.rightBytes = hi :: lo :: R := by
    rw [rightBytes, hr, Option.getD_some, flatMap_cons, hgb, append_assoc]
    exact ⟨_, rfl⟩
  rw [leftBytes, hl, flatMap_nil, length_nil, Nat.zero_add] at hsize
  -- the zero bytes in front of the group
  generalize hk : 16 - x.rightBytes.length = k
  have hbytes : List.replicate 10 0 ++ [255, 255] ++ T = List.replicate k 0 ++ hi :: lo :: R := by
    rw [hT, bytes, leftBytes, hl, hR, ← hk, hR]
    rfl
  have hle : k ≤ 10 := by
    by_contra hlt
    have h := congrArg (fun l : Bytes => l[10]?) hbytes
    simp [getElem?_append, show 10 < k by omega] at h
  have hten : k = 10 := by
    by_contra hne
    -- groups are two bytes wide, so the group is zero
    have hlt : k + 1 < 10 := by omega
    have h0 := congrArg (fun l : Bytes => l[k]?) hbytes
    have h1 := congrArg (fun l : Bytes => l[k + 1]?) hbytes
    simp only [getElem?_append, getElem?_replicate, length_append, length_replicate,
      length_cons, length_nil] at h0 h1
    simp [show k < 12 by omega, show k < 10 by omega, hlt, show k + 1 < 12 by omega] at h0 h1
    rw [hn, ← h0, ← h1] at hg
    exact hg rfl
  subst hten
  have hcons : hi = 255 ∧ lo = 255 := by
    have h := append_cancel_left (by simpa using hbytes :
      List.replicate 10 0 ++ 255 :: 255 :: T = List.replicate 10 0 ++ hi :: lo :: R)
    simp only [cons.injEq] at h
    exact ⟨h.1.symm, h.2.1.symm⟩
  have hval : numeral 16 g = 65535 := by rw [hn, hcons.1, hcons.2]; rfl
  have hlow : toLowerAscii g = lit "ffff" := by
    have h4 := length_group_of_le hgroup (by omega)
    exact lower_of_numeral (t := lit "ffff") hgroup hval h4 (by decide)
  refine ⟨by rw [lower, hl]; rfl, ?_⟩
  have htail : x.lower.tail = lit "ffff" :: (rest ++ x.quad.toList).map toLowerAscii := by
    rw [V6Text.tail, right_lower, hr, Option.getD_some, map_cons, hlow, cons_append, map_append]
    unfold lower
    cases x.quad <;> rfl
  rw [htail]
  cases hf : rest ++ x.quad.toList with
  | nil =>
    have hz := congrArg List.length hf
    rw [hr, Option.getD_some, length_cons] at hlen
    rw [length_append, length_nil] at hz
    omega
  | cons f fs => exact ⟨_, _, rfl⟩

/-- When a mapped address is recognised. -/
theorem opensMapped_iff_of_mapped (hv : x.Valid) (hm : Mapped x.bytes) : x.lower.OpensMapped ↔
    x.left = [] ∧ ∃ g rest, x.right = some (g :: rest) ∧ numeral 16 g ≠ 0 := by
  constructor
  · intro h
    obtain ⟨hl, g, rest, hr, hn⟩ := right_of_opensMapped h
    exact ⟨hl, g, rest, hr, by omega⟩
  · rintro ⟨hl, g, rest, hr, hn⟩
    exact opensMapped_of_mapped hv hm hl hr hn

/-- The documentation block is spelled by two groups; the second decides. -/
theorem opensDocs_iff_of_documentation (hv : x.Valid) (hd : Documentation x.bytes) :
    (¬ x.lower.LeadsReserved ∧ x.left ≠ []) ∧
      (x.lower.OpensDocs ↔ ∃ g k rest, x.left = g :: k :: rest ∧ k.length = 3) := by
  obtain ⟨T, hT⟩ := hd
  rcases hv.cases with ⟨hl, hr, -⟩ | ⟨g, hl, hr, -⟩ | ⟨g, k, rest, -, hl, -⟩
  · -- with fewer than two groups on the left, a byte is zero that is none in the range
    obtain ⟨r, hb⟩ := hv.bytes_open hr
    rw [← hT, leftBytes, hl] at hb
    exact absurd (cons.inj hb).1 (by decide)
  · obtain ⟨r, hb⟩ := hv.bytes_open hr
    rw [← hT, leftBytes, hl] at hb
    exact absurd (cons.inj (cons.inj (cons.inj hb).2).2).1 (by decide)
  · obtain ⟨hi, lo, hi', lo', r, hb, hg, hk⟩ := hv.bytes_two_groups hl
    rw [← hT] at hb
    obtain ⟨rfl, rfl, rfl, rfl, -⟩ : 0x20 = hi ∧ 0x01 = lo ∧ 0x0d = hi' ∧ 0xb8 = lo' ∧ T = r := by
      simpa using hb
    have hgroup := hv.left g (by rw [hl]; simp)
    have hkgroup := hv.left k (by rw [hl]; simp)
    have hlow : toLowerAscii g = lit "2001" :=
      lower_of_numeral (t := lit "2001") hgroup hg
        (length_group_of_le hgroup (by rw [hg]; decide)) (by decide)
    have hleft : x.lower.left = lit "2001" :: toLowerAscii k :: rest.map toLowerAscii := by
      rw [lower, hl, map_cons, map_cons, hlow]
    -- the text of the second group is `db8` or `0db8`, and only the first is looked for
    have hthree : lit "db8" <+: toLowerAscii k ↔ k.length = 3 := by
      have h2 : 2 < k.length := by
        by_contra hle
        have := (numeral_lt k).trans_le (Nat.pow_le_pow_right (by decide) (not_lt.1 hle))
        rw [hk] at this
        exact absurd this (by decide)
      rcases (show k.length = 3 ∨ k.length = 4 by have := (isGroup_iff.1 hkgroup).2.1; omega)
        with h | h
      · rw [lower_of_numeral (t := lit "db8") hkgroup hk h (by decide)]
        exact ⟨fun _ => h, fun _ => by decide⟩
      · rw [lower_of_numeral (t := lit "0db8") hkgroup hk h (by decide), h]
        decide
    refine ⟨⟨?_, by rw [hl]; simp⟩, ?_, ?_⟩
    · rintro ⟨g', rest', hl', hg'⟩
      rw [hleft, cons.injEq] at hl'
      rw [← hl'.1] at hg'
      exact absurd hg' (by decide)
    · rintro ⟨k', rest', hl', hk'⟩
      rw [hleft, cons.injEq, cons.injEq] at hl'
      rw [← hl'.2.1] at hk'
      exact ⟨g, k, rest, hl, hthree.1 hk'⟩
    · rintro ⟨g', k', rest', hl', hk'⟩
      rw [hl, cons.injEq, cons.injEq] at hl'
      rw [← hl'.2.1] at hk'
      exact ⟨_, _, hleft, hthree.2 hk'⟩

/-- For the unspecified and the loopback address only the exact spellings and octets count. -/
theorem trips_iff_plain_of_small (hv : x.Valid) (hb : x.bytes = 0 :: 0 :: r)
    (hsmall : 255 ∉ x.bytes) : x.lower.Trips ↔ x.Plain := by
  obtain ⟨hlead, hdocs⟩ := not_leads_of_zero hv hb
  have hmap := not_opensMapped_of_small hsmall
  have hwide : ¬ Wide x.bytes := by
    rw [hb, wide_cons_iff]
    decide
  have hdoc : ¬ Documentation x.bytes := by
    rintro ⟨T, hT⟩
    rw [hb] at hT
    exact absurd (cons.inj hT).1 (by decide)
  have hmapped : ¬ Mapped x.bytes := fun h => hsmall (h.subset (by decide))
  unfold Trips Plain
  rw [exact_lower_iff, privateQuad_lower_iff hv]
  tauto

/-- A documentation address is caught only in its plain spelling. -/
theorem trips_iff_plain_of_documentation (hv : x.Valid) (h : Documentation x.bytes) :
    x.lower.Trips ↔ x.Plain := by
  obtain ⟨⟨hlead, hleft⟩, hdocs⟩ := opensDocs_iff_of_documentation hv h
  have hmap : ¬ x.lower.OpensMapped := fun hm => hleft (right_of_opensMapped hm).1
  have hexact : ¬ x.Exact := fun he => hleft he.1
  obtain ⟨T, hT⟩ := id h
  have hwide : ¬ Wide x.bytes := by
    rw [← hT]
    exact fun hw => absurd (wide_cons_iff.1 hw) (by decide)
  have hmapped : ¬ Mapped x.bytes := by
    rintro ⟨T', hT'⟩
    rw [← hT] at hT'
    exact absurd (cons.inj hT').1 (by decide)
  unfold Trips Plain
  rw [exact_lower_iff, privateQuad_lower_iff hv, hdocs]
  simp only [hexact, hmap, hlead, hwide, h, hmapped, false_or, false_and, true_and]
  exact or_comm

/-- So is a mapped one. -/
theorem trips_iff_plain_of_mapped (hv : x.Valid) (h : Mapped x.bytes) : x.lower.Trips ↔
    x.Plain := by
  have hmap := opensMapped_iff_of_mapped hv h
  have h255 : 255 ∈ x.bytes := h.subset (by decide)
  have hexact : ¬ x.Exact := by
    intro he
    rcases bytes_of_exact he with hb | hb
    · rw [hb] at h255
      exact absurd h255 (by decide)
    · rw [hb] at h255
      exact absurd h255 (by decide)
  obtain ⟨T, hT⟩ := id h
  have hzero : x.bytes = 0 :: 0 :: (List.replicate 8 0 ++ [0xff, 0xff] ++ T) := hT.symm
  obtain ⟨hlead, hdocs⟩ := not_leads_of_zero hv hzero
  have hwide : ¬ Wide x.bytes := by
    rw [hzero, wide_cons_iff]
    decide
  have hdoc : ¬ Documentation x.bytes := by
    rintro ⟨T', hT'⟩
    rw [hzero] at hT'
    exact absurd (cons.inj hT').1 (by decide)
  unfold Trips Plain
  rw [exact_lower_iff, privateQuad_lower_iff hv, hmap]
  simp only [hexact, hlead, hdocs, hwide, hdoc, h, false_or, or_false, false_and, true_and]
  exact or_comm

/-- **Which spellings of a restricted address are caught.** -/
theorem trips_iff_plain (hv : x.Valid) (hr : Restricted x.bytes) : x.lower.Trips ↔ x.Plain := by
  rcases hr with h | h | h | h | h
  · exact trips_iff_plain_of_small hv (h.trans rfl) (by rw [h]; decide)
  · exact trips_iff_plain_of_small hv (h.trans rfl) (by rw [h]; decide)
  · have hlead := leadsReserved_of_wide hv h
    exact ⟨fun _ => .inl h, fun _ => .inr (.inr (.inr (.inl hlead)))⟩
  · exact trips_iff_plain_of_documentation hv h
  · exact trips_iff_plain_of_mapped hv h

end Restricted

/-- So is every address of a restricted range. -/
theorem isPrivateIp_restricted_iff {t : Bytes} (h : readV6 t = some x)
    (hr : Restricted x.bytes) : isPrivateIp t = true ↔ x.Plain :=
  (isPrivateIp_iff h).trans (trips_iff_plain (readV6_spec h).1 hr)

end PageSpeed
