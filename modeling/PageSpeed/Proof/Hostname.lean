import PageSpeed.Proof.V6Text
import PageSpeed.Spec.CacheKey
import PageSpeed.Spec.UrlRegistry

/-!
# Normalising a host name twice

One pass takes off one port and one dot. What lies behind them is what the next pass takes off.

* `splitPort_cases`: the host and the port part of a name, by its form.
* `normalizeHostname_eq_self_iff`: the names that a pass leaves as they are.
* `normalizeHostname_idem_iff`: when a second pass changes nothing.
-/

namespace PageSpeed

open Wire PageSpeedCache List

/-- The host part and the port part that a pass sees. -/
def splitPort (hostname : Bytes) : Bytes × Bytes :=
  if hostname.head? = some (ch '[') then
    let rest := hostname.dropWhile (· ≠ ch ']')
    if rest.tail.head? = some (ch ':') then
      (hostname.takeWhile (· ≠ ch ']') ++ [ch ']'], rest.drop 2)
    else (hostname, [])
  else
    let port := (hostname.reverse.takeWhile (· ≠ ch ':')).reverse
    if ch ':' ∈ hostname ∧ port ≠ [] ∧ port.all (fun c => ch '0' ≤ c ∧ c ≤ ch '9') then
      (hostname.take (hostname.length - port.length - 1), port)
    else (hostname, [])

/-- One dot at the end is taken off. -/
def trimDot (host : Bytes) : Bytes := if host.getLast? = some (ch '.') then host.dropLast else host

/-- A port that stays in the name. -/
def KeepsPort (port : Bytes) : Prop := port ≠ [] ∧ port ≠ lit "80" ∧ port ≠ lit "443"

instance (port : Bytes) : Decidable (KeepsPort port) := inferInstanceAs (Decidable (_ ∧ _))

/-- Nothing is left for a second pass. Before a port that stays, no second dot; where none stays,
neither a dot nor a port that would go in what the pass leaves of the host. -/
def OnePass (hostname : Bytes) : Prop :=
  let host := trimDot (splitPort hostname).1
  if KeepsPort (splitPort hostname).2 then host.getLast? ≠ some (ch '.')
  else (splitPort host).1.getLast? ≠ some (ch '.') ∧
    (splitPort host = (host, []) ∨ KeepsPort (splitPort host).2)

instance (hostname : Bytes) : Decidable (OnePass hostname) := by
  unfold OnePass
  infer_instance

variable {s a host port : Bytes}

/-- A pass in terms of the parts. -/
theorem normalizeHostname_eq : normalizeHostname s =
    if KeepsPort (splitPort s).2 then
      trimDot ((splitPort s).1.map lowerChar) ++ ch ':' :: (splitPort s).2
    else trimDot ((splitPort s).1.map lowerChar) := by
  unfold normalizeHostname splitPort trimDot KeepsPort
  rfl

/-- An IPv6 literal keeps its brackets. -/
theorem splitPort_bracketed (hopen : a.head? = some (ch '[')) (hclose : ch ']' ∉ a) :
    splitPort (a ++ ch ']' :: ch ':' :: port) = (a ++ [ch ']'], port) := by
  have hall : ∀ c ∈ a, decide (c ≠ ch ']') := fun c hc => decide_eq_true fun h => hclose (h ▸ hc)
  rw [splitPort, if_pos (by rw [head?_append, hopen]; rfl), takeWhile_append_of_pos hall,
    dropWhile_append_of_pos hall]
  simp

/-- A port of digits is split off. -/
theorem splitPort_ported (hopen : (host ++ ch ':' :: port).head? ≠ some (ch '[')) (hne : port ≠ [])
    (hdigit : port.all fun c => ch '0' ≤ c ∧ c ≤ ch '9') :
    splitPort (host ++ ch ':' :: port) = (host, port) := by
  have hall : ∀ c ∈ port.reverse, decide (c ≠ ch ':') := by
    rintro c hc
    refine decide_eq_true fun h => ?_
    have := all_eq_true.1 hdigit c (mem_reverse.1 hc)
    rw [h] at this
    exact absurd this (by decide)
  have hlast : ((host ++ ch ':' :: port).reverse.takeWhile (· ≠ ch ':')).reverse = port := by
    rw [reverse_append, reverse_cons, append_assoc, takeWhile_append_of_pos hall]
    simp
  have hlength : (host ++ ch ':' :: port).length - port.length - 1 = host.length := by simp; omega
  rw [splitPort, if_neg hopen]
  simp only [hlast]
  rw [if_pos ⟨by simp, hne, hdigit⟩, hlength, take_left]

/-- Lower case changes none of the delimiters. -/
theorem lowerChar_delims : ∀ c : UInt8,
    (lowerChar c = ch '[' ↔ c = ch '[') ∧ (lowerChar c = ch ']' ↔ c = ch ']') ∧
    (lowerChar c = ch ':' ↔ c = ch ':') ∧
    (ch '0' ≤ lowerChar c ∧ lowerChar c ≤ ch '9' ↔ ch '0' ≤ c ∧ c ≤ ch '9') := by
  decide +kernel

/-- Letter case does not move the cut. -/
theorem splitPort_map (s : Bytes) :
    splitPort (s.map lowerChar) =
      ((splitPort s).1.map lowerChar, (splitPort s).2.map lowerChar) := by
  have hclose : (fun c => decide (c ≠ ch ']')) ∘ lowerChar = fun c => decide (c ≠ ch ']') := by
    funext c
    simp [(lowerChar_delims c).2.1]
  have hcolon : (fun c => decide (c ≠ ch ':')) ∘ lowerChar = fun c => decide (c ≠ ch ':') := by
    funext c
    simp [(lowerChar_delims c).2.2.1]
  have hdigit : (fun c => decide (ch '0' ≤ c ∧ c ≤ ch '9')) ∘ lowerChar =
      fun c => decide (ch '0' ≤ c ∧ c ≤ ch '9') := by
    funext c
    exact decide_eq_decide.2 (lowerChar_delims c).2.2.2
  have hhead : ∀ (c : UInt8) (_ : ∀ d, lowerChar d = c ↔ d = c) (l : Bytes),
      l.head?.map lowerChar = some c ↔ l.head? = some c := by
    intro c hc l
    cases l <;> simp [hc]
  unfold splitPort
  simp only [head?_map, takeWhile_map, dropWhile_map, hclose, hcolon, ← map_reverse, ← map_tail,
    hhead _ fun d => (lowerChar_delims d).1, hhead _ fun d => (lowerChar_delims d).2.2.1, ne_eq,
    map_eq_nil_iff, mem_map_fixed_iff fun d => (lowerChar_delims d).2.2.1, all_map,
      hdigit, length_map]
  split_ifs <;> simp [show lowerChar (ch ']') = ch ']' from rfl]

/-- The three forms of a host name. -/
theorem splitPort_cases (s : Bytes) : splitPort s = (s, []) ∨
    (∃ a port, a.head? = some (ch '[') ∧ ch ']' ∉ a ∧ s = a ++ ch ']' :: ch ':' :: port) ∨
    ∃ host port, s.head? ≠ some (ch '[') ∧ port ≠ [] ∧ (port.all fun c => ch '0' ≤ c ∧ c ≤ ch '9') ∧
      s = host ++ ch ':' :: port := by
  simp only [splitPort]
  split_ifs with hopen hcolon hport
  · have hhead : (s.takeWhile (· ≠ ch ']')).head? = some (ch '[') := by
      rw [head?_takeWhile, hopen]
      rfl
    have hs := takeWhile_append_dropWhile (p := fun c => decide (c ≠ ch ']')) (l := s)
    have hnot := head?_dropWhile_not (fun c => decide (c ≠ ch ']')) s
    generalize s.dropWhile (· ≠ ch ']') = rest at hcolon hs hnot
    cases rest with
    | nil => cases hcolon
    | cons c l =>
      obtain ⟨port, rfl⟩ := head?_eq_some_iff.1 hcolon
      have hc : c = ch ']' := by simpa using hnot
      rw [hc] at hs
      exact .inr (.inl ⟨_, port, hhead, not_mem_takeWhile_ne _ _, hs.symm⟩)
  · exact .inl rfl
  · obtain ⟨a, b, hs, ha⟩ := eq_append_cons_of_mem (mem_reverse.2 hport.1)
    have hlast : s.reverse.takeWhile (· ≠ ch ':') = a := by
      rw [hs, takeWhile_append, if_pos (by rw [takeWhile_ne_of_not_mem ha])]
      simp
    rw [hlast] at hport
    refine .inr (.inr ⟨b.reverse, a.reverse, hopen, hport.2.1, hport.2.2, ?_⟩)
    rw [← s.reverse_reverse, hs]
    simp
  · exact .inl rfl

theorem getLast_map_dot (host : Bytes) :
    (host.map lowerChar).getLast? = some (ch '.') ↔ host.getLast? = some (ch '.') := by
  rw [getLast?_map]
  cases host.getLast? <;> simp [Inet.lowerChar_eq_iff (show ch '.' < ch 'A' by decide)]

theorem trimDot_map (host : Bytes) :
    trimDot (host.map lowerChar) = (trimDot host).map lowerChar := by
  simp only [trimDot, getLast_map_dot]
  split_ifs
  · exact map_dropLast.symm
  · rfl

/-- Only a dot at the end is dropped. -/
theorem trimDot_eq_self_iff : trimDot host = host ↔ host.getLast? ≠ some (ch '.') := by
  unfold trimDot
  split_ifs with h
  · refine iff_of_false (fun heq => ?_) (fun hnot => hnot h)
    have := congrArg length heq
    cases host <;> simp at h this
  · exact iff_of_true rfl h

theorem trimDot_prefix (host : Bytes) : trimDot host <+: host := by
  unfold trimDot
  split_ifs
  exacts [ dropLast_prefix _, prefix_rfl]

/-- A port that is kept is split off again. -/
theorem splitPort_kept (h : splitPort s = (host, port)) (hport : KeepsPort port) :
    splitPort (trimDot (host.map lowerChar) ++ ch ':' :: port) =
      (trimDot (host.map lowerChar), port) := by
  rcases splitPort_cases s with
    hwhole | ⟨a, q, hopen, hclose, rfl⟩ | ⟨g, q, hopen, hne, hdigit, rfl⟩
  · rw [hwhole] at h
    obtain ⟨-, rfl⟩ := Prod.mk.inj h
    exact absurd rfl hport.1
  · -- a host in brackets keeps them, with no dot behind
    rw [splitPort_bracketed hopen hclose] at h
    obtain ⟨rfl, rfl⟩ := Prod.mk.inj h
    have htrim : trimDot ((a ++ [ch ']']).map lowerChar) = a.map lowerChar ++ [ch ']'] := by
      rw [map_append, trimDot_eq_self_iff.2 (by rw [map_singleton, getLast?_concat]; decide)]
      rfl
    rw [htrim, append_assoc]
    refine splitPort_bracketed ?_ fun hmem => hclose ?_
    swap
    · exact (mem_map_fixed_iff (fun d => (lowerChar_delims d).2.1) a).1 hmem
    rw [head?_map, hopen]
    rfl
  · rw [splitPort_ported hopen hne hdigit] at h
    obtain ⟨rfl, rfl⟩ := Prod.mk.inj h
    -- what could make the host a bracketed one is its first byte, which stays
    refine splitPort_ported ?_ hne hdigit
    rw [trimDot_map]
    obtain ⟨l, hl⟩ := trimDot_prefix g
    rw [← hl] at hopen
    cases hg : trimDot g with
    | nil => exact fun hc => absurd (Option.some.inj hc) (by decide)
    | cons c m =>
      rw [hg] at hopen
      exact fun hc => hopen (congrArg some ((lowerChar_delims c).1.1 (Option.some.inj hc)))

/-- Without a port the name is the host; otherwise a colon stands between the two. -/
theorem splitPort_shape (s : Bytes) :
    splitPort s = (s, []) ∨ s = (splitPort s).1 ++ ch ':' :: (splitPort s).2 := by
  rcases splitPort_cases s with
    hwhole | ⟨a, q, hopen, hclose, rfl⟩ | ⟨g, q, hopen, hne, hdigit, rfl⟩
  · exact .inl hwhole
  · rw [splitPort_bracketed hopen hclose]
    simp
  · rw [splitPort_ported hopen hne hdigit]
    simp

/-- What a pass leaves as it is. -/
theorem normalizeHostname_eq_self_iff (hlower : (splitPort s).1.map lowerChar = (splitPort s).1) :
    normalizeHostname s = s ↔ (splitPort s).1.getLast? ≠ some (ch '.') ∧
      (splitPort s = (s, []) ∨ KeepsPort (splitPort s).2) := by
  rw [normalizeHostname_eq, hlower]
  rcases splitPort_shape s with hwhole | hs
  · rw [hwhole, if_neg (by simp [KeepsPort]), trimDot_eq_self_iff]
    simp
  · generalize splitPort s = p at hs
    subst hs
    by_cases hport : KeepsPort p.2
    · simp [hport, trimDot_eq_self_iff]
    · have hle := ( trimDot_prefix p.1).length_le
      rw [if_neg hport]
      refine iff_of_false (fun h => ?_) fun h => ?_
      · have := congrArg length h
        simp at this
        omega
      · rcases h.2 with h | h
        · have := congrArg (·.1.length) h
          simp at this
        · exact hport h

theorem map_lowerChar_eq_iff {d : Bytes} (hd : ∀ c ∈ d, c < ch 'A') :
    port.map lowerChar = d ↔ port = d := by
  induction d generalizing port with
  | nil => exact map_eq_nil_iff
  | cons c d ih =>
    obtain ⟨hc, hrest⟩ := forall_mem_cons.1 hd
    cases port with
    | nil => simp
    | cons e port =>
      rw [map_cons, cons_eq_cons, cons_eq_cons, ih hrest, Inet.lowerChar_eq_iff hc]

/-- Case does not decide whether a port is kept. -/
theorem keepsPort_map (port : Bytes) : KeepsPort (port.map lowerChar) ↔ KeepsPort port := by
  have heighty : ∀ c ∈ lit "80", c < ch 'A' := by decide +kernel
  have hsecure : ∀ c ∈ lit "443", c < ch 'A' := by decide +kernel
  rw [KeepsPort, KeepsPort, ne_eq, ne_eq, ne_eq, map_eq_nil_iff, map_lowerChar_eq_iff heighty,
    map_lowerChar_eq_iff hsecure]

/-- **Twice is once** exactly when one pass uncovers neither a dot nor a default port; and then the
key of the cache is the one of the name as it was given. -/
theorem normalizeHostname_idem_iff {κ : Type} (cacheKey : Bytes → κ) (s url scheme site : Bytes) :
    (normalizeHostname (normalizeHostname s) = normalizeHostname s ↔ OnePass s) ∧
    (OnePass s → composeKey cacheKey url (normalizeHostname s) scheme site =
      composeKey cacheKey url s scheme site) := by
  suffices h : normalizeHostname (normalizeHostname s) = normalizeHostname s ↔ OnePass s from
    ⟨h, fun hone => by rw [composeKey, h.2 hone, composeKey]⟩
  generalize hp : splitPort s = p
  obtain ⟨host, port⟩ := p
  have hlower : ∀ l : Bytes, (l.map lowerChar).map lowerChar = l.map lowerChar := fun l => by
    rw [map_map]
    exact map_congr_left fun c _ => Inet.lowerChar_lowerChar c
  simp only [OnePass, hp]
  rw [normalizeHostname_eq (s := s), hp]
  dsimp only
  by_cases hport : KeepsPort port
  · have hsplit := splitPort_kept hp hport
    rw [if_pos hport, if_pos hport, normalizeHostname_eq_self_iff]
    · rw [hsplit, trimDot_map, ne_eq, getLast_map_dot]
      simp [hport]
    · rw [hsplit, trimDot_map, hlower]
  · rw [if_neg hport, if_neg hport, trimDot_map]
    have hsplit := splitPort_map (trimDot host)
    rw [normalizeHostname_eq_self_iff (by rw [hsplit, hlower]), hsplit, ne_eq, getLast_map_dot,
      keepsPort_map]
    refine and_congr_right fun _ => or_congr_left ⟨fun h => ?_, fun h => by rw [h]; rfl⟩
    have hlength := congrArg (·.1.length) h
    simp only [length_map] at hlength
    rcases splitPort_shape (trimDot host) with hwhole | hparts
    · exact hwhole
    · have := congrArg length hparts
      simp at this
      omega

/-- A second dot and a second port are left for the second pass. -/
theorem normalizeHostname_again :
    normalizeHostname (lit "a..") = lit "a." ∧ normalizeHostname (lit "a.") = lit "a" ∧
    normalizeHostname (lit "h:80:80") = lit "h:80" ∧ normalizeHostname (lit "h:80") = lit "h" := by
  decide

example : OnePass (lit "::1") ∧ OnePass (lit "[::1") ∧ OnePass (lit "h:") ∧
    OnePass (lit "h:8080:8081") ∧ ¬OnePass (lit "h:80.") := by
  decide

end PageSpeed
