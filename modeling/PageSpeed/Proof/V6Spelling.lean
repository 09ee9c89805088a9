import PageSpeed.Proof.SsrfGuard

/-!
# The spellings of an address

The rules look at how an address is written, so the verdict can differ between two texts of
the same sixteen bytes.

* `readV6_text`: the text of a valid spelling reads back as that spelling.
* `forced_iff`: the addresses that are caught in every spelling.
* `catchable_iff`: the addresses that are caught in some spelling.
-/

namespace PageSpeed

open Wire Inet Inet.V6Text List

/-! ## Reading a spelling back -/

namespace Inet

variable {fs : List Bytes}

theorem not_colons_of_lt {f : Bytes} (h : ch ':' ∉ f) (t : Bytes) {i : ℕ} (hi : i < f.length) :
    ¬ lit "::" <+: (f ++ t).drop i := by
  rw [drop_append_of_le_length hi.le, drop_eq_getElem_cons hi]
  intro hp
  exact h ((cons_prefix_cons.1 hp).1 ▸ getElem_mem hi)

/-- Fields that are not empty leave no two colons side by side. -/
theorem not_colons_join (h : ∀ f ∈ fs, f ≠ [] ∧ ch ':' ∉ f) (t : Bytes) {i : ℕ}
    (hi : i < (join fs).length) :
    ¬ lit "::" <+: (join fs ++ t).drop i := by
  induction fs generalizing i with
  | nil => exact absurd hi (Nat.not_lt_zero i)
  | cons f fs ih =>
    have hf := h f mem_cons_self
    cases fs with
    | nil =>
      rw [join_single] at hi ⊢
      exact not_colons_of_lt hf.2 t hi
    | cons g fs =>
      have hg := h g (by simp)
      rw [join_cons_cons] at hi ⊢
      rw [append_assoc, cons_append]
      rcases lt_trichotomy i f.length with hlt | rfl | hgt
      · exact not_colons_of_lt hf.2 _ hlt
      · -- behind the colon stands the next field
        rw [drop_left]
        intro hp
        obtain ⟨R, hR, -⟩ := exists_join_cons g fs
        obtain ⟨c, g', rfl⟩ := exists_cons_of_ne_nil hg.1
        rw [hR] at hp
        have hc : ch ':' = c := (cons_prefix_cons.1 (cons_prefix_cons.1 hp).2).1
        exact hg.2 (hc ▸ mem_cons_self)
      · -- further behind, in the fields that follow
        obtain ⟨j, rfl⟩ : ∃ j, i = f.length + (j + 1) := ⟨i - f.length - 1, by omega⟩
        rw [← drop_drop, drop_left, drop_succ_cons]
        refine ih (fun k hk => h k (mem_cons_of_mem f hk)) ?_
        rw [length_append, length_cons] at hi
        omega

/-- Groups joined by colons have no `::`. -/
theorem find_colons_join (h : ∀ f ∈ fs, f ≠ [] ∧ ch ':' ∉ f) :
    find (lit "::") (join fs) = none := by
  cases hf : find (lit "::") (join fs) with
  | none => rfl
  | some i =>
    have hp := (find_spec hf).1
    rcases lt_or_ge i (join fs).length with hi | hi
    · exact absurd (by rwa [append_nil]) (not_colons_join h [] hi)
    · rw [drop_eq_nil_of_le hi] at hp
      exact absurd (prefix_nil.1 hp) (by decide)

/-- The first `::` is where it was written. -/
theorem find_colons_join_append (h : ∀ f ∈ fs, f ≠ [] ∧ ch ':' ∉ f) (t : Bytes) :
    find (lit "::") (join fs ++ ch ':' :: ch ':' :: t) = some (join fs).length := by
  have hoccurs : lit "::" <+: (join fs ++ ch ':' :: ch ':' :: t).drop (join fs).length := by
    rw [drop_left]
    exact ⟨t, rfl⟩
  obtain ⟨i, hi, hf⟩ := find_of_occurs hoccurs (by decide)
  rcases hi.lt_or_eq with hlt | rfl
  · exact absurd (find_spec hf).1 (not_colons_join h _ hlt)
  · exact hf

/-- Joined groups are split again. -/
theorem fields_join (h : ∀ f ∈ fs, f ≠ [] ∧ ch ':' ∉ f) : fields (join fs) = fs := by
  unfold fields
  cases fs with
  | nil => rfl
  | cons f fs =>
    rw [if_neg (mt (join_eq_nil_iff fun f hf => (h f hf).1).1 (cons_ne_nil f fs))]
    exact splitOn_intercalate _ (fun f hf => (h f hf).2) (cons_ne_nil f fs)

variable {x : V6Text}

theorem field_of_isGroup {g : Bytes} (h : isGroup g = true) : (g ≠ [] ∧ ch ':' ∉ g) ∧
    ch '.' ∉ g := by
  obtain ⟨hne, -, hhex⟩ := isGroup_iff.1 h
  exact ⟨⟨hne, fun hc => (hex_ne _ (hhex _ hc)).1 rfl⟩, fun hc => (hex_ne _ (hhex _ hc)).2 rfl⟩

/-- So is a quad behind them. -/
theorem splitQuad_join (h : ∀ g ∈ fs, isGroup g = true) (quad : Option Bytes)
    (hq : ∀ q ∈ quad, ch '.' ∈ q ∧ ch ':' ∉ q) : splitQuad (join (fs ++ quad.toList)) =
      (fs, quad) := by
  have hfields : fields (join (fs ++ quad.toList)) = fs ++ quad.toList := by
    refine fields_join fun f hf => ?_
    rcases mem_append.1 hf with hf | hf
    · exact (field_of_isGroup (h f hf)).1
    · obtain ⟨hdot, hcolon⟩ := hq f (Option.mem_toList.1 hf)
      exact ⟨ne_nil_of_mem hdot, hcolon⟩
  unfold splitQuad
  rw [hfields]
  cases quad with
  | some q => simp [(hq q rfl).1]
  | none =>
    rw [Option.toList_none, append_nil]
    cases hl : fs.getLast? with
    | none => rw [getLast?_eq_none_iff.1 hl]
    | some g => simp [(field_of_isGroup (h g (mem_of_getLast? hl))).2]

/-- What is valid passes the check. -/
theorem isValid_of_valid (h : x.Valid) : x.isValid = true := by
  have hquad : x.quad.all (fun q => (inetPton4 q).isSome) = true := by
    cases hq : x.quad with
    | none => rfl
    | some q => exact Option.isSome_iff_exists.2 (h.quad q hq)
  rw [isValid, decide_eq_true_eq]
  refine ⟨all_eq_true.2 h.left, all_eq_true.2 h.right, hquad, ?_⟩
  split_ifs with hr
  · exact h.open_size (Option.isSome_iff_ne_none.1 hr)
  · exact h.full_size (by simpa using hr)

/-- **The text of a valid spelling reads back as that spelling.** -/
theorem readV6_text (h : x.Valid) : readV6 x.text = some x := by
  have hquad : ∀ q ∈ x.quad, ch '.' ∈ q ∧ ch ':' ∉ q := by
    intro q hq
    obtain ⟨b, hb⟩ := h.quad q hq
    obtain ⟨o₁, o₂, o₃, o₄, hq⟩ := quad_of_inetPton4 hb
    exact ⟨hq.dot_mem, fun hc => absurd (hq.mem_text hc) (by decide)⟩
  have hleft : ∀ f ∈ x.left, f ≠ [] ∧ ch ':' ∉ f := fun f hf => (field_of_isGroup (h.left f hf)).1
  -- split at the first double colon, the text gives back its parts
  have hwritten : writtenAs x.text = x := by
    obtain ⟨left, right, quad⟩ := x
    unfold writtenAs
    cases right with
    | none =>
      have hall : ∀ f ∈ left ++ quad.toList, f ≠ [] ∧ ch ':' ∉ f := by
        intro f hf
        rcases mem_append.1 hf with hf | hf
        · exact hleft f hf
        · obtain ⟨hdot, hcolon⟩ := hquad f (Option.mem_toList.1 hf)
          exact ⟨ne_nil_of_mem hdot, hcolon⟩
      rw [show (⟨left, none, quad⟩ : V6Text).text = join (left ++ quad.toList) from rfl,
        find_colons_join hall, splitQuad_join h.left quad hquad]
    | some r =>
      have hright : ∀ g ∈ r, isGroup g = true := h.right
      rw [show (⟨left, some r, quad⟩ : V6Text).text =
          join left ++ ch ':' :: ch ':' :: join (r ++ quad.toList) from rfl,
            find_colons_join_append hleft]
      dsimp only
      rw [take_left, fields_join hleft, ← drop_drop, drop_left, drop_succ_cons,
        drop_succ_cons, drop_zero, splitQuad_join hright quad hquad]
  rw [readV6, hwritten, if_pos (isValid_of_valid h)]

end Inet

/-! ## Groups and octets with given values -/

/-- The number `n` in `k` hexadecimal digits. -/
def digits : ℕ → ℕ → Bytes
  | 0, _ => []
  | k + 1, n => digits k (n / 16) ++ [hexDigits.getD (n % 16) 0]

theorem hexDigits_getD : ∀ d < 16, isHexDigit (hexDigits.getD d 0) = true ∧
    digitValue (hexDigits.getD d 0) = d ∧ lowerChar (hexDigits.getD d 0) = hexDigits.getD d 0 := by
  decide

theorem length_digits (k n : ℕ) : (digits k n).length = k := by
  induction k generalizing n with
  | zero => rfl
  | succ k ih => rw [digits, length_append, ih, length_singleton]

theorem isHexDigit_of_mem_digits {k n : ℕ} {c : UInt8} (h : c ∈ digits k n) :
    isHexDigit c = true ∧ lowerChar c = c := by
  induction k generalizing n with
  | zero => cases h
  | succ k ih =>
    rcases mem_append.1 h with h | h
    · exact ih h
    · rw [mem_singleton.1 h]
      have hd := hexDigits_getD (n % 16) (Nat.mod_lt n (by decide))
      exact ⟨hd.1, hd.2.2⟩

/-- The digits stand for the number. -/
theorem numeral_digits (k n : ℕ) : numeral 16 (digits k n) = n % 16 ^ k := by
  induction k generalizing n with
  | zero => simp [digits, numeral, Nat.mod_one]
  | succ k ih =>
    rw [digits, numeral_append, ih, (hexDigits_getD _ (Nat.mod_lt n (by decide))).2.1, pow_succ',
      Nat.mod_mul]
    omega

theorem toLowerAscii_digits (k n : ℕ) : toLowerAscii (digits k n) = digits k n :=
  (map_congr_left fun _ hc => (isHexDigit_of_mem_digits hc).2).trans (map_id _)

/-- Leading and trailing digits. -/
theorem digits_add (m j n : ℕ) : digits (m + j) n = digits m (n / 16 ^ j) ++ digits j n := by
  induction j generalizing n with
  | zero => simp [digits]
  | succ j ih =>
    rw [← Nat.add_assoc, digits, ih, digits, append_assoc, Nat.div_div_eq_div_mul, pow_succ']

/-- One to four digits are a group. -/
theorem isGroup_digits {k : ℕ} (h : 0 < k) (h4 : k ≤ 4) (n : ℕ) : isGroup (digits k n) = true := by
  refine isGroup_iff.2 ⟨?_, by rwa [length_digits], fun c hc => (isHexDigit_of_mem_digits hc).1⟩
  rw [← length_pos_iff, length_digits]
  exact h

/-- A spelling of a group is its digits, up to letter case. -/
theorem toLowerAscii_group {g : Bytes} (h : isGroup g = true) :
    toLowerAscii g = digits g.length (numeral 16 g) := by
  have hn : numeral 16 (digits g.length (numeral 16 g)) = numeral 16 g := by
    rw [numeral_digits, Nat.mod_eq_of_lt (numeral_lt g)]
  rw [← toLowerAscii_digits]
  exact lower_eq_of_numeral (isGroup_iff.1 h).2.2 (fun c hc => (isHexDigit_of_mem_digits hc).1)
    (length_digits _ _).symm hn.symm

/-- The group of two bytes. -/
theorem groupBytes_digits {k : ℕ} {hi lo : UInt8} (h : hi.toNat * 256 + lo.toNat < 16 ^ k) :
    groupBytes (digits k (hi.toNat * 256 + lo.toNat)) = [hi, lo] := by
  have hhi := hi.toNat_lt
  have hlo := lo.toNat_lt
  rw [groupBytes_eq, numeral_digits, Nat.mod_eq_of_lt h,
    show (hi.toNat * 256 + lo.toNat) / 256 % 256 = hi.toNat by omega,
    show (hi.toNat * 256 + lo.toNat) % 256 = lo.toNat by
      omega, UInt8.ofNat_toNat, UInt8.ofNat_toNat]

/-- Groups of four digits spell any bytes. -/
theorem flatMap_padded {b : Bytes} {n : ℕ} (h : b.length = 2 * n) :
    (words b).length = n ∧ ((words b).map (digits 4)).flatMap groupBytes = b := by
  induction n generalizing b with
  | zero => rw [length_eq_zero_iff.1 h]; exact ⟨rfl, rfl⟩
  | succ n ih =>
    match b, h with
    | hi :: lo :: b, h =>
      obtain ⟨hlen, hb⟩ := ih (b := b) (by simp only [length_cons] at h; omega)
      have hhi := hi.toNat_lt
      have hlo := lo.toNat_lt
      rw [words, length_cons, hlen, map_cons, flatMap_cons, hb, groupBytes_digits (by omega)]
      exact ⟨rfl, rfl⟩

theorem word_lt (b : Bytes) (i : ℕ) : (words b).getD i 0 < 16 ^ 4 := by
  fun_induction words b generalizing i with
  | case1 hi lo b ih =>
    have hhi := hi.toNat_lt
    have hlo := lo.toNat_lt
    cases i with
    | zero => rw [getD_cons_zero]; omega
    | succ i => rw [getD_cons_succ]; exact ih i
  | case2 => simp

theorem isGroup_of_mem_padded {ws : List ℕ} {g : Bytes} (h : g ∈ ws.map (digits 4)) :
    isGroup g = true := by
  obtain ⟨w, -, rfl⟩ := mem_map.1 h
  exact isGroup_digits (by decide) (by decide) w

/-- An octet in decimal is read back. -/
theorem decimal_octet : ∀ o : UInt8, isOctet (decimal o.toNat) = true ∧
    numeral 10 (decimal o.toNat) = o.toNat := by
  decide +kernel

/-- So is an IPv4 address. -/
theorem inetPton4_inetNtop4 {b : Bytes} (h : b.length = 4) : inetPton4 (inetNtop4 b) = some b := by
  have hsplit : (inetNtop4 b).splitOn (ch '.') = b.map fun o => decimal o.toNat := by
    refine splitOn_intercalate _ (fun o ho hdot => ?_) ?_
    · obtain ⟨n, -, rfl⟩ := mem_map.1 ho
      exact (isDigit_ne _ ((isOctet_iff.1 (decimal_octet n).1).2.2.1 _ hdot)).1 rfl
    · rw [ne_eq, map_eq_nil_iff]
      rintro rfl
      cases h
  have hall : (b.map fun o => decimal o.toNat).all isOctet = true := by
    rw [all_map, all_eq_true]
    exact fun o _ => (decimal_octet o).1
  have hval : (b.map fun o => decimal o.toNat).map (fun o => UInt8.ofNat (numeral 10 o)) = b := by
    rw [map_map]
    exact (map_congr_left fun o _ => by simp [(decimal_octet o).2]).trans (map_id b)
  unfold inetPton4
  dsimp only
  rw [hsplit, if_pos ⟨by rw [length_map, h], hall⟩, hval]

/-- A short row of digits does not overflow. -/
theorem accumulate_digits {s : Bytes} {v k : ℕ} (hs : ∀ c ∈ s, isDigit c = true) (hv : v < 10 ^ k)
    (hk : k + s.length ≤ 9) :
    accumulate 10 decimalDigitValue v s = some (s.foldl (fun v c => v * 10 + digitValue c) v) := by
  induction s generalizing v k with
  | nil => rfl
  | cons c s ih =>
    have hdigit : ∀ c : UInt8, isDigit c = true → decimalDigitValue c = some (digitValue c) ∧
        digitValue c < 10 := by
      decide +kernel
    obtain ⟨hc, hlt⟩ := hdigit c (hs c mem_cons_self)
    have hnext : v * 10 + digitValue c < 10 ^ (k + 1) := by rw [pow_succ]; omega
    have hmax : 10 ^ (k + 1) ≤ 10 ^ 9 := Nat.pow_le_pow_right (by decide) (by simp at hk; omega)
    rw [accumulate, hc]
    dsimp only
    rw [if_neg (by omega), ih (fun d hd => hs d (mem_cons_of_mem c hd)) hnext
      (by simp at hk; omega), foldl_cons]

/-- An octet is read as the decimal it is. -/
theorem jsNumberLabel_octet {o : Bytes} (h : isOctet o = true) :
    (jsNumberLabel o).filter (· ≤ 255) = some (numeral 10 o) := by
  obtain ⟨-, hlen, hdigit, hzero, hle⟩ := isOctet_iff.1 h
  rw [jsNumberLabel, if_neg fun hx => hzero ⟨by omega, hx.2.1⟩,
    accumulate_digits hdigit (v := 0) (k := 0) (by decide) (by omega)]
  simpa [Option.filter, numeral] using hle

/-- The guard on a canonical quad looks at its bytes. -/
theorem isPrivateV4_eq {q b : Bytes} (h : inetPton4 q = some b) :
    isPrivateV4 q = isReservedV4 (b.getD 0 0).toNat (b.getD 1 0).toNat (b.getD 2 0).toNat := by
  obtain ⟨o₁, o₂, o₃, o₄, hq⟩ := quad_of_inetPton4 h
  have hnum : ∀ o ∈ [o₁, o₂, o₃, o₄], (UInt8.ofNat (numeral 10 o)).toNat = numeral 10 o := by
    intro o ho
    have := (isOctet_iff.1 (hq.octet o ho)).2.2.2.2
    rw [UInt8.toNat_ofNat']
    omega
  have hmap : (q.splitOn (ch '.')).mapM (fun l => (jsNumberLabel l).filter (· ≤ 255)) =
      some ([o₁, o₂, o₃, o₄].map (numeral 10)) := by
    rw [hq.split]
    simp [jsNumberLabel_octet (hq.octet _ _)]
  rw [isPrivateV4, hmap, hq.bytes]
  simp [hnum]

/-! ## Which addresses are caught -/

namespace Inet

variable (b : Bytes)

/-- Some spelling of a sixteen-bit number starts with these digits. -/
def Begins (p : Bytes) (n : ℕ) : Prop := ∃ j < 5 - p.length, n / 16 ^ j = numeral 16 p

instance (p : Bytes) (n : ℕ) : Decidable (Begins p n) := by unfold Begins; infer_instance

/-- What the rules look for in the first group. -/
def reservedDigits : List Bytes :=
  [lit "fc", lit "fd", lit "fe8", lit "fe9", lit "fea", lit "feb", lit "ff"]

/-- The first group, or the first two, need all their digits, and these are reserved. -/
def Forced : Prop := Wide b ∨ (words b).getD 0 0 = 0x2001 ∧ (words b).getD 1 0 / 16 = 0xdb8

/-- The last four bytes are an IPv4 address that is not public, the first group or the first
two can be written with reserved digits, or zero groups are followed by "ffff". -/
def Catchable : Prop :=
  isReservedV4 (b.getD 12 0).toNat (b.getD 13 0).toNat (b.getD 14 0).toNat = true ∨
  (∃ p ∈ reservedDigits, Begins p ((words b).getD 0 0)) ∨
  ((words b).getD 0 0 = 0x2001 ∧ Begins (lit "db8") ((words b).getD 1 0)) ∨
  ∃ j < 7, List.replicate (2 * j + 2) 0 ++ [0xff, 0xff] <+: b

instance : Decidable (Forced b) := inferInstanceAs (Decidable (_ ∨ _))
instance : Decidable (Catchable b) := inferInstanceAs (Decidable (_ ∨ _ ∨ _ ∨ _))

end Inet

theorem reservedText_iff {g : Bytes} : ReservedText g ↔ ∃ p ∈ reservedDigits, p <+: g := by
  simp only [ReservedText, reservedDigits, mem_cons, not_mem_nil, or_false, exists_eq_or_imp,
    exists_eq_left]
  tauto

/-- The prefixes of the guard are digits of numbers. -/
theorem reservedDigits_spec : ∀ p ∈ lit "db8" :: reservedDigits,
    0 < p.length ∧ p.length ≤ 4 ∧ p = digits p.length (numeral 16 p) := by
  decide

/-- What the leading digits of a number say about it. -/
theorem prefix_digits_iff {p : Bytes} {k n : ℕ} (hp : p = digits p.length (numeral 16 p))
    (hk : p.length ≤ k) (hn : n < 16 ^ k) : p <+: digits k n ↔
      n / 16 ^ (k - p.length) = numeral 16 p := by
  obtain ⟨j, rfl⟩ := Nat.exists_eq_add_of_le hk
  rw [Nat.add_sub_cancel_left, digits_add]
  constructor
  · intro h
    have hpre := prefix_of_prefix_length_le h (prefix_append _ _) (length_digits _ _).ge
    have heq : p = digits p.length (n / 16 ^ j) := hpre.eq_of_length (length_digits _ _).symm
    have hlt : n / 16 ^ j < 16 ^ p.length := Nat.div_lt_of_lt_mul (by rwa [Nat.mul_comm, ← pow_add])
    conv_rhs => rw [heq]
    rw [numeral_digits, Nat.mod_eq_of_lt hlt]
  · intro h
    rw [h, ← hp]
    exact prefix_append _ _

/-- The digits at the start of a spelling. -/
theorem begins_of_prefix {p g : Bytes} (hp : p ∈ lit "db8" :: reservedDigits)
    (hg : isGroup g = true) (h : p <+: toLowerAscii g) : Begins p (numeral 16 g) := by
  obtain ⟨-, -, hdigits⟩ := reservedDigits_spec p hp
  have hle : p.length ≤ g.length := by simpa [toLowerAscii] using h.length_le
  rw [toLowerAscii_group hg, prefix_digits_iff hdigits hle (numeral_lt g)] at h
  exact ⟨g.length - p.length, by have := (isGroup_iff.1 hg).2.1; omega, h⟩

/-- A spelling that starts with given digits. -/
theorem exists_prefix_of_begins {p : Bytes} {n : ℕ} (hp : p ∈ lit "db8" :: reservedDigits)
    (h : Begins p n) :
    ∃ k, 0 < k ∧ k ≤ 4 ∧ n < 16 ^ k ∧ p <+: digits k n := by
  obtain ⟨hpos, hle, hdigits⟩ := reservedDigits_spec p hp
  obtain ⟨j, hj, hn⟩ := h
  have hlt : n < 16 ^ (p.length + j) := by
    rw [pow_add]
    exact Nat.lt_mul_of_div_lt (by rw [hn]; exact numeral_lt p) (by positivity)
  refine ⟨p.length + j, by omega, by omega, hlt, ?_⟩
  rw [prefix_digits_iff hdigits (Nat.le_add_right _ _) hlt, Nat.add_sub_cancel_left, hn]

section Caught

variable {x : V6Text} (hv : x.Valid)
include hv

/-- The first group is the first word of the address. -/
theorem word_of_group {g : Bytes} {rest : List Bytes} (hl : x.left = g :: rest) :
    (words x.bytes).getD 0 0 = numeral 16 g := by
  obtain ⟨hi, lo, r, hb, hn⟩ := hv.bytes_group hl
  rw [hb, hn]
  rfl

/-- And the first two are its first two. -/
theorem words_of_groups {g k : Bytes} {rest : List Bytes} (hl : x.left = g :: k :: rest) :
    (words x.bytes).getD 0 0 = numeral 16 g ∧ (words x.bytes).getD 1 0 = numeral 16 k := by
  obtain ⟨hi, lo, hi', lo', r, hb, hg, hk⟩ := hv.bytes_two_groups hl
  rw [hb, hg, hk]
  exact ⟨rfl, rfl⟩

theorem length_bytes_valid : x.bytes.length = 16 := by
  have hopen := hv.open_size
  have hfull := hv.full_size
  rw [bytes, length_append, length_append, length_replicate]
  cases hr : x.right with
  | none => have := hfull hr; omega
  | some r => have := hopen (by rw [hr]; simp); omega

/-- A quad is the end of the address. -/
theorem bytes_quad {q b : Bytes} (hq : x.quad = some q) (hb : inetPton4 q = some b) :
    ∃ p, p.length = 12 ∧ x.bytes = p ++ b := by
  obtain ⟨o₁, o₂, o₃, o₄, hquad⟩ := quad_of_inetPton4 hb
  have hright : x.rightBytes = (x.right.getD []).flatMap groupBytes ++ b := by
    rw [rightBytes, hq, Option.bind_some, hb, Option.getD_some]
  have hbytes : x.bytes = x.leftBytes ++
    List.replicate (16 - x.leftBytes.length - x.rightBytes.length) 0 ++
      (x.right.getD []).flatMap groupBytes ++ b := by
    rw [append_assoc, ← hright]
    rfl
  refine ⟨_, ?_, hbytes⟩
  have hlen := length_bytes_valid hv
  rw [hbytes, length_append, hquad.length_bytes] at hlen
  omega

/-- **Only an address that is catchable is caught.** -/
theorem catchable_of_trips (h : x.lower.Trips) : Catchable x.bytes := by
  rcases h with h | h | h | h | h
  · left
    rcases bytes_of_exact ((exact_lower_iff x).1 h) with hb | hb
    · rw [hb]; decide
    · rw [hb]; decide
  · obtain ⟨q, hq, hp⟩ := (privateQuad_lower_iff hv).1 h
    obtain ⟨b, hb⟩ := hv.quad q hq
    obtain ⟨p, hlen, hbytes⟩ := bytes_quad hv hq hb
    left
    rw [isPrivateV4_eq hb] at hp
    rw [hbytes]
    simpa [getElem?_append, hlen] using hp
  · obtain ⟨hl, g, rest, hr, hn⟩ := right_of_opensMapped h
    have hsize := hv.open_size (by rw [hr]; simp)
    have hlen := hv.length_rightBytes
    have hg : groupBytes g = [255, 255] := by rw [groupBytes_eq, hn]; rfl
    rw [leftBytes, hl, flatMap_nil, length_nil, Nat.zero_add] at hsize
    rw [hr, Option.getD_some, length_cons] at hlen
    obtain ⟨R, hR⟩ : ∃ R, x.rightBytes = [255, 255] ++ R := by
      rw [rightBytes, hr, Option.getD_some, flatMap_cons, hg, append_assoc]
      exact ⟨_, rfl⟩
    refine .inr (.inr (.inr ⟨(16 - x.rightBytes.length) / 2 - 1, by omega, R, ?_⟩))
    rw [show 2 * ((16 - x.rightBytes.length) / 2 - 1) + 2 = 16 - x.rightBytes.length by omega,
      append_assoc, ← hR, bytes, leftBytes, hl]
    rfl
  · obtain ⟨g, rest, hl, hg⟩ := h
    obtain ⟨g, rest, hleft, rfl⟩ := left_of_lower hl
    obtain ⟨p, hp, hpre⟩ := reservedText_iff.1 hg
    refine .inr (.inl ⟨p, hp, ?_⟩)
    rw [word_of_group hv hleft]
    exact begins_of_prefix (mem_cons_of_mem _ hp) (hv.left g (by rw [hleft]; simp)) hpre
  · obtain ⟨k, rest, hl, hk⟩ := h
    obtain ⟨g, r, hleft, hg, hr⟩ := map_eq_cons_iff.1 hl
    obtain ⟨k, rest, rfl, rfl, -⟩ := map_eq_cons_iff.1 hr
    obtain ⟨h0, h1⟩ := words_of_groups hv hleft
    refine .inr (.inr (.inl ⟨?_, ?_⟩))
    · rw [h0, ← numeral_lower, hg]
      decide
    · rw [h1]
      exact begins_of_prefix mem_cons_self (hv.left k (by rw [hleft]; simp)) hk

/-- **A forced address is caught however it is written.** -/
theorem trips_of_forced (h : Forced x.bytes) : x.lower.Trips := by
  rcases h with h | ⟨h0, h1⟩
  · exact .inr (.inr (.inr (.inl (leadsReserved_of_wide hv h))))
  · -- neither group is zero, so both stand in front of any "::"
    rcases hv.cases with ⟨hl, hr, -⟩ | ⟨g, hl, hr, -⟩ | ⟨g, k, rest, -, hl, -⟩
    · obtain ⟨r, hb⟩ := hv.bytes_open hr
      rw [hb, leftBytes, hl] at h0
      cases h0
    · obtain ⟨r, hb⟩ := hv.bytes_open hr
      obtain ⟨hi, lo, hg, -⟩ := exists_groupBytes (hv.left g (by rw [hl]; simp))
      rw [hb, leftBytes, hl, flatMap_cons, flatMap_nil, append_nil, hg] at h1
      exact absurd (show 0 / 16 = 0xdb8 from h1) (by decide)
    · obtain ⟨hw0, hw1⟩ := words_of_groups hv hl
      rw [hw0] at h0
      rw [hw1] at h1
      have hg := hv.left g (by rw [hl]; simp)
      have hk := hv.left k (by rw [hl]; simp)
      have hglen := length_group_of_le hg (by omega)
      have hklen := length_group_of_le hk (by omega)
      refine .inr (.inr (.inr (.inr ⟨toLowerAscii k, rest.map toLowerAscii, ?_, ?_⟩)))
      · rw [lower, hl, map_cons, map_cons, toLowerAscii_group hg, hglen, h0]
        rfl
      · rw [toLowerAscii_group hk,
          prefix_digits_iff (by decide) (by rw [hklen]; decide) (numeral_lt k), hklen]
        exact h1

end Caught

/-! ## Spellings of a given address -/

/-- The values of the prefixes. -/
theorem numeral_reservedDigits : ∀ p ∈ reservedDigits,
    (p.length = 2 ∧ (numeral 16 p = 252 ∨ numeral 16 p = 253 ∨ numeral 16 p = 255)) ∨
      (p.length = 3 ∧ 4072 ≤ numeral 16 p ∧ numeral 16 p ≤ 4075) := by
  decide

/-- Four digits that begin like a reserved block are those of one. -/
theorem wide_of_prefix {p r : Bytes} {hi lo : UInt8} (hp : p ∈ reservedDigits)
    (h : p <+: digits 4 (hi.toNat * 256 + lo.toNat)) : Wide (hi :: lo :: r) := by
  have hhi := hi.toNat_lt
  have hlo := lo.toNat_lt
  obtain ⟨-, hle, hdigits⟩ := reservedDigits_spec p (mem_cons_of_mem _ hp)
  rw [prefix_digits_iff hdigits hle (by omega)] at h
  have hul : ∀ b : UInt8, b.toNat = 252 ∨ b.toNat = 253 → b &&& 0xfe = 0xfc := by decide +kernel
  have hll : ∀ b : UInt8, 128 ≤ b.toNat ∧ b.toNat < 192 → b &&& 0xc0 = 0x80 := by decide +kernel
  have hcases : hi.toNat = 252 ∨ hi.toNat = 253 ∨
      (hi.toNat = 254 ∧ 128 ≤ lo.toNat ∧ lo.toNat < 192) ∨ hi.toNat = 255 := by
    rcases numeral_reservedDigits p hp with ⟨hlen, hn⟩ | ⟨hlen, hn⟩
    · rw [hlen, show 16 ^ (4 - 2) = 256 from rfl] at h
      omega
    · rw [hlen, show 16 ^ (4 - 3) = 16 from rfl] at h
      omega
  rw [wide_cons_iff]
  rcases hcases with hc | hc | ⟨hc, hlo⟩ | hc
  · exact .inl (hul hi (.inl hc))
  · exact .inl (hul hi (.inr hc))
  · exact .inr (.inl ⟨UInt8.toNat_inj.1 hc, hll lo hlo⟩)
  · exact .inr (.inr (UInt8.toNat_inj.1 hc))

section Spellings

variable {b : Bytes} (hb : b.length = 16)
include hb

/-- A spelling without "::" or octets whose first two groups have given lengths. -/
theorem exists_spelling {k₀ k₁ : ℕ} (h₀ : 0 < k₀ ∧ k₀ ≤ 4 ∧ (words b).getD 0 0 < 16 ^ k₀)
    (h₁ : 0 < k₁ ∧ k₁ ≤ 4 ∧ (words b).getD 1 0 < 16 ^ k₁) :
    ∃ x : V6Text, x.Valid ∧ x.bytes = b ∧ x.quad = none ∧
      ∃ rest, x.lower.left = digits k₀ ((words b).getD 0 0) ::
        digits k₁ ((words b).getD 1 0) :: rest := by
  match b, hb with
  | b₀ :: b₁ :: b₂ :: b₃ :: r, hb =>
    obtain ⟨hlen, hr⟩ := flatMap_padded (b := r) (n := 6) (by simpa using hb)
    refine ⟨⟨digits k₀ (b₀.toNat * 256 + b₁.toNat) :: digits k₁ (b₂.toNat * 256 + b₃.toNat) ::
      (words r).map (digits 4), none, none⟩, ⟨?_, by simp, by simp, by simp, ?_⟩, ?_, rfl,
      (((words r).map (digits 4)).map toLowerAscii), ?_⟩
    · intro g hg
      rcases mem_cons.1 hg with rfl | hg
      · exact isGroup_digits h₀.1 h₀.2.1 _
      · rcases mem_cons.1 hg with rfl | hg
        · exact isGroup_digits h₁.1 h₁.2.1 _
        · exact isGroup_of_mem_padded hg
    · intro _
      rw [leftBytes, length_flatMap_groupBytes, rightBytes]
      simp [hlen]
    · rw [bytes, leftBytes, rightBytes, flatMap_cons, flatMap_cons, groupBytes_digits h₀.2.2,
        groupBytes_digits h₁.2.2, hr]
      simp at hb
      simp [hb]
    · rw [lower, map_cons, map_cons, toLowerAscii_digits, toLowerAscii_digits]
      rfl

/-- Written out in full, only a forced address is caught. -/
theorem exists_not_trips (h : ¬ Forced b) : ∃ x : V6Text, x.Valid ∧ x.bytes = b ∧
    ¬ x.lower.Trips := by
  obtain ⟨x, hv, hbytes, hquad, rest, hl⟩ := exists_spelling hb ⟨by decide, le_rfl, word_lt b 0⟩
    ⟨by decide, le_rfl, word_lt b 1⟩
  refine ⟨x, hv, hbytes, ?_⟩
  rintro (⟨he, -⟩ | ⟨q, hq, -⟩ | ⟨he, -⟩ | ⟨g, rest', hl', hg⟩ | ⟨k, rest', hl', hk⟩)
  · rw [hl] at he; cases he
  · rw [lower, hquad] at hq; cases hq
  · rw [hl] at he; cases he
  · rw [hl, cons.injEq] at hl'
    obtain ⟨p, hp, hpre⟩ := reservedText_iff.1 hg
    rw [← hl'.1] at hpre
    refine h (.inl ?_)
    obtain _ | ⟨_, _ | ⟨_, _⟩⟩ := b
    · cases hb
    · cases hb
    · exact wide_of_prefix hp hpre
  · rw [hl, cons.injEq, cons.injEq] at hl'
    rw [← hl'.2.1, prefix_digits_iff (by decide) (by decide) (word_lt b 1)] at hk
    refine h (.inr ⟨?_, hk⟩)
    have hn := congrArg (numeral 16) hl'.1
    rwa [numeral_digits, Nat.mod_eq_of_lt (word_lt b 0)] at hn

/-- The last two groups written as octets. -/
theorem exists_trips_of_tail
    (h : isReservedV4 (b.getD 12 0).toNat (b.getD 13 0).toNat (b.getD 14 0).toNat = true) :
    ∃ x : V6Text, x.Valid ∧ x.bytes = b ∧ x.lower.Trips := by
  obtain ⟨hlen, hr⟩ := flatMap_padded (b := b.take 12) (n := 6) (by simp [hb])
  have hq : inetPton4 (inetNtop4 (b.drop 12)) = some (b.drop 12) :=
    inetPton4_inetNtop4 (by simp [hb])
  have hv : V6Text.Valid ⟨(words (b.take 12)).map (digits 4), none,
      some (inetNtop4 (b.drop 12))⟩ := by
    refine ⟨fun g => isGroup_of_mem_padded, by simp, ?_, by simp, fun _ => ?_⟩
    · rintro q ⟨⟩
      exact ⟨_, hq⟩
    · rw [leftBytes, hr, rightBytes, Option.bind_some, hq]
      simp [hb]
  refine ⟨_, hv, ?_, .inr (.inl ((privateQuad_lower_iff hv).2 ⟨_, rfl, ?_⟩))⟩
  · rw [bytes, leftBytes, hr, rightBytes, Option.bind_some, hq]
    simp [hb]
  · rw [isPrivateV4_eq hq]
    simpa using h

omit hb in
/-- Zero groups in front of "ffff" compressed to "::". -/
theorem exists_trips_of_mapped {R : Bytes} {j : ℕ} (hj : j < 6) (hlen : R.length = 12 - 2 * j)
    (hR : List.replicate (2 * j + 2) 0 ++ [0xff, 0xff] ++ R = b) :
    ∃ x : V6Text, x.Valid ∧ x.bytes = b ∧ x.lower.Trips := by
  obtain ⟨hwords, hr⟩ := flatMap_padded (b := R) (n := 6 - j) (by omega)
  have hright : rightBytes ⟨[], some (lit "ffff" :: (words R).map (digits 4)), none⟩ =
      [0xff, 0xff] ++ R := by
    show groupBytes (lit "ffff") ++ ((words R).map (digits 4)).flatMap groupBytes ++ [] = _
    rw [hr, append_nil]
    rfl
  refine ⟨⟨[], some (lit "ffff" :: (words R).map (digits 4)), none⟩,
    ⟨by simp, ?_, by simp, ?_, by simp⟩, ?_, .inr (.inr (.inl ⟨rfl, ?_⟩))⟩
  · intro g hg
    rcases mem_cons.1 hg with rfl | hg
    · decide
    · exact isGroup_of_mem_padded hg
  · intro _
    rw [hright, length_append, hlen]
    simp [leftBytes]
    omega
  · rw [bytes, hright, ← hR, length_append, hlen]
    simp [leftBytes]
    omega
  · cases hw : words R with
    | nil => rw [hw, length_nil] at hwords; omega
    | cons w ws => exact ⟨_, _, rfl⟩

/-- **A catchable address has a spelling that is caught.** -/
theorem exists_trips (h : Catchable b) : ∃ x : V6Text, x.Valid ∧ x.bytes = b ∧ x.lower.Trips := by
  rcases h with h | ⟨p, hp, h⟩ | ⟨h0, h⟩ | ⟨j, hj, R, hR⟩
  · exact exists_trips_of_tail hb h
  · obtain ⟨k, hk, hk4, hlt, hpre⟩ := exists_prefix_of_begins (mem_cons_of_mem _ hp) h
    obtain ⟨x, hv, hbytes, -, rest, hl⟩ :=
      exists_spelling hb ⟨hk, hk4, hlt⟩ ⟨by decide, le_rfl, word_lt b 1⟩
    exact ⟨x, hv, hbytes, .inr (.inr (.inr (.inl ⟨_, _, hl, reservedText_iff.2 ⟨p, hp, hpre⟩⟩)))⟩
  · obtain ⟨k, hk, hk4, hlt, hpre⟩ := exists_prefix_of_begins mem_cons_self h
    obtain ⟨x, hv, hbytes, -, rest, hl⟩ :=
      exists_spelling hb ⟨by decide, le_rfl, word_lt b 0⟩ ⟨hk, hk4, hlt⟩
    rw [h0] at hl
    exact ⟨x, hv, hbytes, .inr (.inr (.inr (.inr ⟨_, rest, hl, hpre⟩)))⟩
  · have hlen : R.length = 12 - 2 * j := by
      rw [← hR] at hb
      simp only [length_append, length_replicate, length_cons, length_nil] at hb
      omega
    obtain hsix | hsix := (show j = 6 ∨ j < 6 by omega)
    · -- no group is left, and the octets are 0.0.255.255
      refine exists_trips_of_tail hb ?_
      obtain rfl : R = [] := length_eq_zero_iff.1 (by omega)
      rw [← hR, hsix]
      decide
    · exact exists_trips_of_mapped hsix hlen hR

end Spellings

/-! ## The verdict on an address -/

/-- What the guard says of a spelling, and what the spelling stands for. -/
theorem verdict_of_text {x : V6Text} (hv : x.Valid) :
    inetPton6 x.text = some x.bytes ∧ (isPrivateIp x.text = true ↔ x.lower.Trips) :=
  ⟨by rw [inetPton6, readV6_text hv]; rfl, isPrivateIp_iff (readV6_text hv)⟩

section Verdict

variable {b : Bytes} (hb : b.length = 16)
include hb

/-- **The addresses that are refused in every spelling.** -/
theorem forced_iff : (∀ t, inetPton6 t = some b → isPrivateIp t = true) ↔ Forced b := by
  constructor
  · intro h
    by_contra hf
    obtain ⟨x, hv, hbytes, hx⟩ := exists_not_trips hb hf
    obtain ⟨htext, hverdict⟩ := verdict_of_text hv
    exact hx (hverdict.1 (h x.text (by rw [htext, hbytes])))
  · intro hf t ht
    obtain ⟨x, hx, hbytes⟩ := Option.map_eq_some_iff.1 ht
    rw [← hbytes] at hf
    exact (isPrivateIp_iff hx).2 (trips_of_forced (readV6_spec hx).1 hf)

/-- **The addresses that are refused in some spelling.** -/
theorem catchable_iff : (∃ t, inetPton6 t = some b ∧ isPrivateIp t = true) ↔ Catchable b := by
  constructor
  · rintro ⟨t, ht, hp⟩
    obtain ⟨x, hx, rfl⟩ := Option.map_eq_some_iff.1 ht
    exact catchable_of_trips (readV6_spec hx).1 ((isPrivateIp_iff hx).1 hp)
  · intro hc
    obtain ⟨x, hv, hbytes, hx⟩ := exists_trips hb hc
    obtain ⟨htext, hverdict⟩ := verdict_of_text hv
    exact ⟨x.text, by rw [htext, hbytes], hverdict.2 hx⟩

/-- **The addresses with one verdict**: refused in every spelling or in none. -/
theorem oneVerdict_iff :
    (∀ t t', inetPton6 t = some b → inetPton6 t' = some b → isPrivateIp t = isPrivateIp t') ↔
      Forced b ∨ ¬ Catchable b := by
  rw [← forced_iff hb, ← catchable_iff hb]
  constructor
  · intro h
    by_cases hc : ∃ t, inetPton6 t = some b ∧ isPrivateIp t = true
    · obtain ⟨t, ht, hp⟩ := hc
      exact .inl fun t' ht' => (h t' t ht' ht).trans hp
    · exact .inr hc
  · rintro (h | h) t t' ht ht'
    · rw [h t ht, h t' ht']
    · have hno : ∀ t, inetPton6 t = some b → isPrivateIp t = false :=
        fun t ht => by simpa using fun hp => h ⟨t, ht, hp⟩
      rw [hno t ht, hno t' ht']

end Verdict

/-- A public address whose last bytes could be read as loopback octets has two verdicts. -/
example : ¬ Forced [0x26, 0x06, 0x47, 0, 0, 0, 0, 0, 0, 0, 0, 0, 127, 0, 0, 1] ∧
    Catchable [0x26, 0x06, 0x47, 0, 0, 0, 0, 0, 0, 0, 0, 0, 127, 0, 0, 1] := by
  decide

end PageSpeed
