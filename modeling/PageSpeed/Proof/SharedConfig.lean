import PageSpeed.Proof.HostAliases
import PageSpeed.Proof.Sfv
import PageSpeed.Spec.SharedConfig

/-!
# What the worker publishes, the front end reads

* `setting`: the value of a key. A configuration is its settings, and a line of the file changes one
  of them.
* `parseSharedConfig_content`: the file is read key by key.
* `setting_reread_iff`: the values that come back.
* `readSharedConfigFile_written`: the configurations that come back whole.
-/

namespace PageSpeed

open Wire Inet List
open Sfv (decimal_spec length_decimal decimal_ne_nil)

/-- The value of a setting. -/
inductive Setting
  | text (v : Bytes)
  | flag (b : Bool)
  | size (n : UInt64)
  | generation (g : Int32)
  deriving DecidableEq

open Setting

namespace SharedKey

/-- Every key is written. -/
theorem mem_all (k : SharedKey) : k ∈ all := by
  cases k <;> decide

theorem nodup_all : all.Nodup := by decide

/-- A key is read back. -/
theorem ofText?_text (k : SharedKey) : ofText? k.text = some k := by
  have hall : ∀ k ∈ all, ofText? k.text = some k := by decide +kernel
  exact hall k (mem_all k)

/-- The names of the keys: not the version, no comment, nothing that ends the name or the line. -/
theorem text_spec (k : SharedKey) : k.text ≠ lit "version" ∧ k.text ≠ [] ∧
    k.text.head? ≠ some (ch '#') ∧ ch '=' ∉ k.text ∧ ch '\n' ∉ k.text := by
  have hall : ∀ k ∈ all, k.text ≠ lit "version" ∧ k.text ≠ [] ∧ k.text.head? ≠ some (ch '#') ∧
      ch '=' ∉ k.text ∧ ch '\n' ∉ k.text := by decide +kernel
  exact hall k (mem_all k)

end SharedKey

namespace SharedConfig

/-- The setting of each key. -/
def setting (config : SharedConfig) : SharedKey → Setting
  | .socketPath => .text config.socketPath
  | .disableHtml => .flag config.disableHtml
  | .agentOptimizeEntitled => .flag config.agentOptimizeEntitled
  | .agentOptimizeLlmsTxtEnabled => .flag config.agentOptimizeLlmsTxtEnabled
  | .webBotAuth => .flag config.webBotAuth
  | .webBotAuthVerifiedBots => .text config.webBotAuthVerifiedBots
  | .webBotAuthDirectoryHosts => .text config.webBotAuthDirectoryHosts
  | .webBotAuthPublicCounter => .text config.webBotAuthPublicCounter
  | .rslCapEnforcement => .flag config.rslCapEnforcement
  | .rslCapDirectoryHosts => .text config.rslCapDirectoryHosts
  | .rslCapRequestedLicense => .text config.rslCapRequestedLicense
  | .rslCapRequestedScope => .text config.rslCapRequestedScope
  | .rslCapIssuer => .text config.rslCapIssuer
  | .volumeSize => .size config.volumeSize
  | .cacheDirGeneration => .generation config.cacheDirGeneration
  | .cacheMode => .text config.cacheMode
  | .stripQueryExtensions => .text config.stripQueryExtensions
  | .stripQueryParams => .text config.stripQueryParams

variable {config c d : SharedConfig} {k k' : SharedKey} {v : Bytes}

/-- A configuration is its settings. -/
theorem eq_iff_setting : c = d ↔ ∀ k, c.setting k = d.setting k := by
  constructor
  · rintro rfl k
    rfl
  · intro h
    obtain ⟨⟩ := c
    obtain ⟨⟩ := d
    simp only [setting] at h
    simp only [mk.injEq]
    exact ⟨text.inj (h .socketPath), flag.inj (h .disableHtml),
      flag.inj (h .agentOptimizeEntitled), flag.inj (h .agentOptimizeLlmsTxtEnabled),
      flag.inj (h .webBotAuth), text.inj (h .webBotAuthVerifiedBots),
      text.inj (h .webBotAuthDirectoryHosts), text.inj (h .webBotAuthPublicCounter),
      flag.inj (h .rslCapEnforcement), text.inj (h .rslCapDirectoryHosts),
      text.inj (h .rslCapRequestedLicense), text.inj (h .rslCapRequestedScope),
      text.inj (h .rslCapIssuer), size.inj (h .volumeSize),
      generation.inj (h .cacheDirGeneration), text.inj (h .cacheMode),
      text.inj (h .stripQueryExtensions), text.inj (h .stripQueryParams)⟩

/-- The branch of a key leaves the other settings as they are. -/
theorem setting_assign_of_ne (h : k ≠ k') : (c.assign v k').setting k = c.setting k := by
  have hall : ∀ {e : SharedConfig}, (∀ k, k ≠ k' → e.setting k = c.setting k) →
      e.setting k = c.setting k :=
    fun he => he k h
  refine hall fun k h => ?_
  cases k' <;> simp only [assign] <;> (try split) <;> (try split) <;>
    first
      | rfl
      | (cases k <;> first | rfl | exact absurd rfl h)

/-- What the branch of a key makes of its own setting depends on that setting alone. -/
theorem setting_assign_congr (h : c.setting k = d.setting k) :
    (c.assign v k).setting k = (d.assign v k).setting k := by
  cases k <;> simp only [assign] <;> (try split) <;> (try split) <;> first | rfl | exact h

/-- The effect of the line of a key. -/
def reread (config : SharedConfig) (c : SharedConfig) (k : SharedKey) : SharedConfig :=
  match config.written k with
  | none => c
  | some v => if 0 ∈ v then c else c.assign v k

/-- A line changes no setting but its own. -/
theorem setting_reread_of_ne (h : k ≠ k') : (config.reread c k').setting k = c.setting k := by
  unfold reread
  split
  · rfl
  · split
    exacts [rfl, setting_assign_of_ne h]

/-- And its own depends on no other. -/
theorem setting_reread_congr (h : c.setting k = d.setting k) :
    (config.reread c k).setting k = (config.reread d k).setting k := by
  unfold reread
  split
  · exact h
  · split
    exacts [h, setting_assign_congr h]

/-- After the lines of several keys, each setting is what its own line made of it. -/
theorem setting_foldl_reread {ks : List SharedKey} (hnodup : ks.Nodup) (c : SharedConfig) :
    (k ∉ ks → (ks.foldl config.reread c).setting k = c.setting k) ∧
    (k ∈ ks → (ks.foldl config.reread c).setting k = (config.reread c k).setting k) := by
  induction ks generalizing c with
  | nil => exact ⟨fun _ => rfl, nofun⟩
  | cons k' ks ih =>
    obtain ⟨hk', hks⟩ := nodup_cons.1 hnodup
    obtain ⟨hout, hin⟩ := ih hks (config.reread c k')
    rw [foldl_cons]
    constructor
    · intro hk
      obtain ⟨hne, hk⟩ := not_or.1 fun h => hk (mem_cons.2 h)
      exact (hout hk).trans (setting_reread_of_ne hne)
    · intro hk
      by_cases heq : k = k'
      · subst heq
        exact hout hk'
      · have hk := (mem_cons.1 hk).resolve_left heq
        exact (hin hk).trans (setting_reread_congr (setting_reread_of_ne heq))

/-! ## The lines of the file -/

/-- A value that no line break cuts short. -/
def Unbroken (v : Bytes) : Prop := ch '\n' ∉ v ∧ ch '\r' ∉ v

theorem unbroken_of_digits (h : ∀ c ∈ v, isDigit c = true) : Unbroken v :=
  ⟨fun hv => absurd (h _ hv) (by decide), fun hv => absurd (h _ hv) (by decide)⟩

/-- A number stays on its line. -/
theorem unbroken_intText (n : ℤ) : Unbroken (intText n) := by
  have hdigits := unbroken_of_digits (decimal_spec n.natAbs).1
  unfold intText
  split
  · refine ⟨fun h => ?_, fun h => ?_⟩
    · rcases mem_cons.1 h with h | h
      exacts [absurd h (by decide), hdigits.1 h]
    · rcases mem_cons.1 h with h | h
      exacts [absurd h (by decide), hdigits.2 h]
  · exact hdigits

theorem unbroken_boolText (b : Bool) : Unbroken (boolText b) := by
  cases b <;> exact ⟨by decide, by decide⟩

/-- The values that are written: a text that the writer looks at, a flag or a number. -/
theorem written_cases (hv : config.written k = some v) :
    v ∈ config.checked ∨ (∃ b, v = boolText b) ∨ ∃ n, v = intText n := by
  have htext : ∀ {w : Bytes}, w ∈ config.checked → some w = some v → v ∈ config.checked :=
    fun hmem heq => Option.some.inj heq ▸ hmem
  have hnumber : ∀ {p : Prop} [Decidable p] {w : Bytes},
      (if p then some w else none) = some v → w = v := by
    intro p _ w h
    split at h
    · exact Option.some.inj h
    · cases h
  cases k <;> simp only [written] at hv
  case volumeSize =>
    refine .inr (.inr ⟨(config.volumeSize.toNat : ℤ), (hnumber hv).symm.trans ?_⟩)
    rw [intText, if_neg (by omega), Int.natAbs_natCast]
  case cacheDirGeneration => exact .inr (.inr ⟨_, (hnumber hv).symm⟩)
  case cacheMode =>
    rw [← hnumber hv]
    exact .inl (by simp [checked])
  all_goals
    first
      | exact .inr (.inl ⟨_, (Option.some.inj hv).symm⟩)
      | exact .inl (htext (by simp [checked]) hv)

/-- The writer looks for line breaks wherever there may be one. -/
theorem unbroken_written (h : config.checked.any hasNewline = false)
    (hv : config.written k = some v) : Unbroken v := by
  rcases written_cases hv with hmem | ⟨b, rfl⟩ | ⟨n, rfl⟩
  · exact hasNewline_eq_false.1 (by simpa using any_eq_false.1 h v hmem)
  · exact unbroken_boolText b
  · exact unbroken_intText n

/-- A line is split into its key and value, unless it has a zero byte. -/
theorem splitLine_line {key : Bytes} (hne : key ≠ []) (hhash : key.head? ≠ some (ch '#'))
    (hequals : ch '=' ∉ key)
    (hv : Unbroken v) : splitLine (line key v) = if 0 ∈ v then none else some (key, v) := by
  -- the line ends in the value or in the equals sign, so there is nothing to strip
  have hstrip : stripTrailingCr (line key v) = key ++ ch '=' :: v := by
    have hlast : (key ++ ch '=' :: v).getLast? ≠ some (ch '\r') := by
      rw [getLast?_append_of_ne_nil _ (by simp)]
      intro hcr
      rcases mem_cons.1 (mem_of_getLast? hcr) with h | h
      exacts [absurd h (by decide), hv.2 h]
    rw [stripTrailingCr, line, if_neg hlast]
  have hhead : (key ++ ch '=' :: v).head? ≠ some (ch '#') := by
    rwa [head?_append_of_ne_nil _ hne]
  have hdrop : (key ++ ch '=' :: v).drop (key.length + 1) = v := by
    rw [← drop_drop, drop_left, drop_one, tail_cons]
  have hfull : key ++ ch '=' :: v ≠ [] := by simp
  simp only [splitLine, hstrip, find_byte hequals, take_left, hdrop]
  rw [if_neg (not_or.2 ⟨hfull, hhead⟩)]

/-- The lines of the keys are read one after the other. -/
theorem parseLines_keys (h : config.checked.any hasNewline = false) (ks : List SharedKey)
    (version : ℤ) (c : SharedConfig) :
    parseLines ((ks.filterMap fun k => (config.written k).map (line k.text)) ++ [[]]) version c =
      ks.foldl config.reread c := by
  induction ks generalizing c with
  | nil => rfl
  | cons k ks ih =>
    cases hv : config.written k with
    | none =>
      have hskip : config.reread c k = c := by rw [reread, hv]
      rw [filterMap_cons_none (by rw [hv]; rfl), ih, foldl_cons, hskip]
    | some v =>
      obtain ⟨hversion, hne, hhash, hequals, -⟩ := k.text_spec
      have hreread : config.reread c k = if 0 ∈ v then c else c.assign v k := by rw [reread, hv]
      rw [filterMap_cons_some (by rw [hv]; rfl), cons_append, parseLines,
        splitLine_line hne hhash hequals (unbroken_written h hv), foldl_cons, hreread]
      by_cases hnul : 0 ∈ v
      · simp only [if_pos hnul, ih]
      · simp only [if_neg hnul, if_neg hversion, k.ofText?_text, ih]

/-- **The file is read key by key.** -/
theorem parseSharedConfig_content (h : config.checked.any hasNewline = false) (pid : Int32) :
    parseSharedConfig (config.content pid) = SharedKey.all.foldl config.reread {} := by
  have hlines : ∀ l ∈ config.lines pid, ch '\n' ∉ l := by
    have hline : ∀ {key v : Bytes}, ch '\n' ∉ key → Unbroken v → ch '\n' ∉ line key v := by
      intro key v hkey hv
      simp only [line, mem_append, mem_cons, not_or]
      exact ⟨hkey, by decide, hv.1⟩
    intro l hl
    rcases mem_cons.1 hl with rfl | hl
    · decide +kernel
    rcases mem_cons.1 hl with rfl | hl
    · exact hline (by decide) (unbroken_intText _)
    rcases mem_cons.1 hl with rfl | hl
    · exact hline (by decide) (unbroken_intText _)
    obtain ⟨k, -, hk⟩ := mem_filterMap.1 hl
    obtain ⟨v, hv, rfl⟩ := Option.map_eq_some_iff.1 hk
    exact hline k.text_spec.2.2.2.2 (unbroken_written h hv)
  have hcomment : splitLine (lit "# Written by pagespeed-worker. Do not edit.") = none := by
    decide +kernel
  have hversion : splitLine (line (lit "version") (intText kSharedConfigVersion)) =
      some (lit "version", lit "1") := by
    decide +kernel
  have hpid : ∃ o, splitLine (line (lit "pid") (intText pid.toInt)) = o ∧
      (o = none ∨ o = some (lit "pid", intText pid.toInt)) := by
    refine ⟨_, rfl, ?_⟩
    rw [splitLine_line (by decide) (by decide) (by decide) (unbroken_intText _)]
    split
    exacts [.inl rfl, .inr rfl]
  have hunknown : SharedKey.ofText? (lit "pid") = none := by decide +kernel
  have hnotVersion : lit "pid" ≠ lit "version" := by decide
  have hone : fromCharsInt (lit "1") = some 1 := by decide
  rw [parseSharedConfig, content, splitOn_lines hlines, lines, cons_append, cons_append,
    cons_append, parseLines, hcomment, parseLines, hversion]
  simp only [if_true, hone, Option.getD_some]
  rw [if_neg (by decide), parseLines]
  obtain ⟨o, ho, rfl | rfl⟩ := hpid
  · rw [ho]
    exact parseLines_keys h _ _ _
  · rw [ho]
    simp only [if_neg hnotVersion, hunknown]
    exact parseLines_keys h _ _ _

/-! ## The values that come back -/

theorem notMem_of_digits {s : Bytes} (h : ∀ c ∈ s, isDigit c = true) : (0 : UInt8) ∉ s :=
  fun h0 => absurd (h 0 h0) (by decide)

theorem isTrue_boolText (b : Bool) : isTrue (boolText b) = b := by
  cases b <;> decide

theorem notMem_boolText (b : Bool) : (0 : UInt8) ∉ boolText b := by
  cases b <;> decide

theorem takeWhile_decimal (n : ℕ) : (decimal n).takeWhile isDigit = decimal n ∧
    (decimal n).dropWhile isDigit = [] :=
  ⟨takeWhile_eq_self_iff.2 (decimal_spec n).1, dropWhile_eq_nil_iff.2 (decimal_spec n).1⟩

/-- A size is read back. -/
theorem fromCharsUInt64_decimal (n : UInt64) : fromCharsUInt64 (decimal n.toNat) = some n := by
  simp only [fromCharsUInt64, (takeWhile_decimal n.toNat).1, if_neg (decimal_ne_nil n.toNat),
    (decimal_spec n.toNat).2, if_pos n.toNat_lt, UInt64.ofNat_toNat]

theorem head?_decimal (n : ℕ) : (decimal n).head? ≠ some (ch '-') := fun h =>
  absurd ((decimal_spec n).1 _ (mem_of_head? h)) (by decide)

/-- So is a generation. -/
theorem fromCharsInt_intText {n : ℤ} (hpos : 0 < n) (hlt : n < 2 ^ 31) :
    fromCharsInt (intText n) = some n ∧ behindInt (intText n) = [] ∧ (0 : UInt8) ∉ intText n := by
  have htext : intText n = decimal n.natAbs := if_neg (by omega)
  have hvalue : (n.natAbs : ℤ) = n := Int.natAbs_of_nonneg hpos.le
  rw [htext]
  refine ⟨?_, ?_, notMem_of_digits (decimal_spec _).1⟩
  · simp only [fromCharsInt, if_neg (head?_decimal n.natAbs), (takeWhile_decimal n.natAbs).1,
      if_neg (decimal_ne_nil n.natAbs), (decimal_spec n.natAbs).2, hvalue]
    exact if_pos ⟨by omega, hlt⟩
  · rw [behindInt, if_neg (head?_decimal n.natAbs)]
    exact (takeWhile_decimal n.natAbs).2

/-- The socket path is set, and mode and counter are of their documented values. -/
structure Documented (config : SharedConfig) : Prop where
  socketPath : config.socketPath ≠ []
  cacheMode : config.cacheMode = [] ∨ config.cacheMode = lit "safe" ∨
    config.cacheMode = lit "aggressive"
  counter : config.webBotAuthPublicCounter = lit "off" ∨
    config.webBotAuthPublicCounter = lit "private" ∨ config.webBotAuthPublicCounter = lit "public"

/-- The value of the key comes back. -/
def Returns (config : SharedConfig) : SharedKey → Prop
  | .socketPath => 0 ∉ config.socketPath ∧ config.socketPath.length ≤ 107
  | .webBotAuthVerifiedBots => 0 ∉ config.webBotAuthVerifiedBots
  | .webBotAuthDirectoryHosts => 0 ∉ config.webBotAuthDirectoryHosts
  | .rslCapDirectoryHosts => 0 ∉ config.rslCapDirectoryHosts
  | .rslCapRequestedLicense => 0 ∉ config.rslCapRequestedLicense
  | .rslCapRequestedScope => 0 ∉ config.rslCapRequestedScope
  | .rslCapIssuer => 0 ∉ config.rslCapIssuer
  | .cacheDirGeneration => 0 ≤ config.cacheDirGeneration
  | .stripQueryExtensions => 0 ∉ config.stripQueryExtensions
  | .stripQueryParams => 0 ∉ config.stripQueryParams
  | _ => True

section

variable (k)

/-- A text whose default is empty comes back when it has no NUL in it. -/
theorem text_returns_iff (f : Bytes → SharedConfig) (hf : ∀ w, (f w).setting k = .text w)
    (v : Bytes) :
    (if 0 ∈ v then f [] else f v).setting k = .text v ↔ 0 ∉ v := by
  split_ifs with h
  · rw [hf]
    refine ⟨fun heq => ?_, fun hnot => absurd h hnot⟩
    rw [← text.inj heq] at h
    cases h
  · rw [hf]
    exact ⟨fun _ => h, fun _ => rfl⟩

/-- So is a flag. -/
theorem flag_returns (f : Bool → SharedConfig) (hf : ∀ b, (f b).setting k = .flag b) (b : Bool) :
    (if 0 ∈ boolText b then f false else f (isTrue (boolText b))).setting k = .flag b := by
  rw [if_neg (notMem_boolText b), isTrue_boolText, hf]

end

/-- When the socket path is read back. -/
theorem socketPath_returns_iff (hne : config.socketPath ≠ []) :
    (config.reread {} .socketPath).setting .socketPath = .text config.socketPath ↔
      config.Returns .socketPath := by
  simp only [reread, written, assign, Returns]
  by_cases hnul : 0 ∈ config.socketPath
  · -- the default has no NUL
    rw [if_pos hnul]
    refine ⟨fun h => ?_, fun h => absurd hnul h.1⟩
    rw [← text.inj h] at hnul
    exact absurd hnul (by decide +kernel)
  rw [if_neg hnul]
  by_cases hlong : config.socketPath.length ≤ 107
  · rw [if_pos ⟨hne, hlong⟩]
    exact ⟨fun _ => ⟨hnul, hlong⟩, fun _ => rfl⟩
  · rw [if_neg fun h => hlong h.2]
    refine ⟨fun h => ?_, fun h => absurd h.2 hlong⟩
    rw [← text.inj h] at hlong
    exact absurd (by decide +kernel) hlong

theorem counter_returns (h : config.Documented) :
    (config.reread {} .webBotAuthPublicCounter).setting .webBotAuthPublicCounter =
      .text config.webBotAuthPublicCounter := by
  simp only [reread, written, assign]
  rcases h.counter with heq | heq | heq <;> rw [heq] <;> decide +kernel

theorem cacheMode_returns (h : config.Documented) :
    (config.reread {} .cacheMode).setting .cacheMode = .text config.cacheMode := by
  simp only [reread, written, assign]
  rcases h.cacheMode with heq | heq | heq <;> rw [heq] <;> decide +kernel

theorem volumeSize_returns : (config.reread {} .volumeSize).setting .volumeSize =
    .size config.volumeSize := by
  simp only [reread, written]
  by_cases hzero : config.volumeSize = 0
  · rw [if_neg (not_not.2 hzero), hzero]
    rfl
  · rw [if_pos hzero]
    simp only [if_neg (notMem_of_digits (decimal_spec config.volumeSize.toNat).1), assign,
      fromCharsUInt64_decimal, (takeWhile_decimal config.volumeSize.toNat).2, if_true]
    rfl

/-- When the generation is read back. -/
theorem generation_returns_iff :
    (config.reread {} .cacheDirGeneration).setting .cacheDirGeneration =
      .generation config.cacheDirGeneration ↔ config.Returns .cacheDirGeneration := by
  simp only [reread, written, Returns]
  by_cases hpos : config.cacheDirGeneration > 0
  · have hint : 0 < config.cacheDirGeneration.toInt := Int32.lt_iff_toInt_lt.1 hpos
    obtain ⟨hvalue, hbehind, hnul⟩ := fromCharsInt_intText hint config.cacheDirGeneration.toInt_lt
    rw [if_pos hpos]
    simp only [if_neg hnul, assign, hvalue, hbehind]
    rw [if_pos ⟨trivial, hint⟩]
    simp only [setting, Int32.ofInt_toInt, true_iff]
    exact Int32.le_iff_toInt_le.2 hint.le
  · rw [if_neg hpos]
    have hle : config.cacheDirGeneration.toInt ≤ 0 :=
      not_lt.1 fun h => hpos (Int32.lt_iff_toInt_lt.2 h)
    constructor
    · intro h
      rw [← generation.inj h]
      decide
    · intro h
      have hzero : config.cacheDirGeneration = 0 :=
        Int32.toInt_inj.1 (le_antisymm hle (Int32.le_iff_toInt_le.1 h))
      rw [hzero]
      rfl

/-- When a setting is read back. -/
theorem setting_reread_iff (h : config.Documented) (k : SharedKey) :
    (config.reread {} k).setting k = config.setting k ↔ config.Returns k := by
  -- a flag always returns, a text unless it has a zero byte
  cases k with
  | socketPath => exact socketPath_returns_iff h.socketPath
  | disableHtml =>
    exact iff_of_true (flag_returns _ (fun b => { disableHtml := b }) (fun _ => rfl) _) trivial
  | agentOptimizeEntitled =>
    exact iff_of_true (flag_returns _ (fun b => { agentOptimizeEntitled := b })
      (fun _ => rfl) _) trivial
  | agentOptimizeLlmsTxtEnabled =>
    exact iff_of_true (flag_returns _ (fun b => { agentOptimizeLlmsTxtEnabled := b })
      (fun _ => rfl) _) trivial
  | webBotAuth =>
    exact iff_of_true (flag_returns _ (fun b => { webBotAuth := b }) (fun _ => rfl) _) trivial
  | webBotAuthVerifiedBots =>
    exact text_returns_iff _ (fun w => { webBotAuthVerifiedBots := w }) (fun _ => rfl) _
  | webBotAuthDirectoryHosts =>
    exact text_returns_iff _ (fun w => { webBotAuthDirectoryHosts := w }) (fun _ => rfl) _
  | webBotAuthPublicCounter => exact iff_of_true (counter_returns h) trivial
  | rslCapEnforcement =>
    exact iff_of_true (flag_returns _ (fun b => { rslCapEnforcement := b })
      (fun _ => rfl) _) trivial
  | rslCapDirectoryHosts =>
    exact text_returns_iff _ (fun w => { rslCapDirectoryHosts := w }) (fun _ => rfl) _
  | rslCapRequestedLicense =>
    exact text_returns_iff _ (fun w => { rslCapRequestedLicense := w }) (fun _ => rfl) _
  | rslCapRequestedScope =>
    exact text_returns_iff _ (fun w => { rslCapRequestedScope := w }) (fun _ => rfl) _
  | rslCapIssuer => exact text_returns_iff _ (fun w => { rslCapIssuer := w }) (fun _ => rfl) _
  | volumeSize => exact iff_of_true volumeSize_returns trivial
  | cacheDirGeneration => exact generation_returns_iff
  | cacheMode => exact iff_of_true (cacheMode_returns h) trivial
  | stripQueryExtensions =>
    exact text_returns_iff _ (fun w => { stripQueryExtensions := w }) (fun _ => rfl) _
  | stripQueryParams =>
    exact text_returns_iff _ (fun w => { stripQueryParams := w }) (fun _ => rfl) _

/-- When all settings are read back. -/
theorem returns_iff (h : config.Documented) :
    (∀ k, config.Returns k) ↔
      (∀ v ∈ config.checked, 0 ∉ v) ∧ config.socketPath.length ≤ 107 ∧
        0 ≤ config.cacheDirGeneration := by
  have hmode : 0 ∉ config.cacheMode := by
    rcases h.cacheMode with heq | heq | heq <;> rw [heq] <;> decide
  have hcounter : 0 ∉ config.webBotAuthPublicCounter := by
    rcases h.counter with heq | heq | heq <;> rw [heq] <;> decide
  simp only [checked, forall_mem_cons]
  constructor
  · intro hall
    exact ⟨⟨(hall .socketPath).1, hmode, hall .stripQueryExtensions, hall .stripQueryParams,
      hall .webBotAuthVerifiedBots, hall .webBotAuthDirectoryHosts, hcounter,
      hall .rslCapDirectoryHosts, hall .rslCapRequestedLicense, hall .rslCapRequestedScope,
      hall .rslCapIssuer, nofun⟩, (hall .socketPath).2, hall .cacheDirGeneration⟩
  · rintro ⟨⟨hsocket, -, hext, hparams, hbots, hhosts, -, hrsl, hlicense, hscope, hissuer, -⟩,
      hlength, hgen⟩ k
    cases k <;> trivial

/-! ## The size of the file -/

/-- The length of the file: the first three lines, and a line for each key that is written. -/
def publishedSize (config : SharedConfig) (pid : Int32) : ℕ :=
  44 + 10 + ((intText pid.toInt).length + 5) +
    (SharedKey.all.filterMap fun k => (config.written k).map fun v =>
      k.text.length + v.length + 2).sum

/-- The size of the file. -/
theorem length_content (config : SharedConfig) (pid : Int32) :
    (config.content pid).length = config.publishedSize pid := by
  -- each key that is written takes a line, an equals sign and a line feed
  have hkeys : ∀ ks : List SharedKey,
      ((ks.filterMap fun k => (config.written k).map (line k.text)).map (·.length + 1)).sum =
        (ks.filterMap fun k => (config.written k).map fun v =>
          k.text.length + v.length + 2).sum := by
    intro ks
    induction ks with
    | nil => rfl
    | cons k ks ih =>
      cases hv : config.written k with
      | none =>
        rw [filterMap_cons_none (by rw [hv]; rfl), filterMap_cons_none (by rw [hv]; rfl), ih]
      | some v =>
        rw [filterMap_cons_some (by rw [hv]; rfl), filterMap_cons_some (by rw [hv]; rfl), map_cons,
          sum_cons, sum_cons, ih, line, length_append, length_cons]
        dsimp only
        omega
  have hlines : (config.content pid).length = ((config.lines pid).map (·.length + 1)).sum := by
    simp only [content, length_flatMap, length_append, length_singleton]
  have hcomment : (lit "# Written by pagespeed-worker. Do not edit.").length = 43 := by
    decide +kernel
  have hversion : (line (lit "version") (intText kSharedConfigVersion)).length = 9 := by
    decide +kernel
  have hpid : (line (lit "pid") (intText pid.toInt)).length = (intText pid.toInt).length + 4 := by
    rw [line, length_append, length_cons, show (lit "pid").length = 3 by decide]
    omega
  rw [hlines, lines, map_cons, map_cons, map_cons, sum_cons, sum_cons, sum_cons, hkeys,
    hcomment, hversion, hpid, publishedSize]
  omega

/-- The file of the defaults is small. -/
theorem publishedSize_default (pid : Int32) : publishedSize {} pid ≤ kMaxSharedConfigSize := by
  have hpid : (intText pid.toInt).length ≤ 16 := by
    have hlo := pid.le_toInt
    have hhi := pid.toInt_lt
    have hdecimal : (decimal pid.toInt.natAbs).length ≤ 15 := length_decimal (by omega)
    unfold intText
    split
    · exact Nat.succ_le_succ hdecimal
    · omega
  have hkeys : (SharedKey.all.filterMap fun k =>
      (written {} k).map fun v => k.text.length + v.length + 2).sum ≤ 1000 := by decide +kernel
  rw [publishedSize, kMaxSharedConfigSize]
  omega

/-- When the file is written, and what it says. -/
theorem writeSharedConfigFile_eq_some {path file : Bytes} {pid getpid : Int32} :
    writeSharedConfigFile path config pid getpid = some file ↔
      path ≠ [] ∧ config.checked.any hasNewline = false ∧
      config.content (if pid = 0 then getpid else pid) = file := by
  unfold writeSharedConfigFile
  by_cases hpath : path = []
  · simp [hpath]
  by_cases hbreaks : config.checked.any hasNewline = true
  · simp [hpath, hbreaks]
  · simp [hpath, hbreaks]

/-- **What is read back.** Of a configuration that is published, with mode and counter as
documented, everything comes back exactly when no text has a NUL in it, the socket path fits, the
generation is not negative and the file is not too large. -/
theorem readSharedConfigFile_written {path file : Bytes} {pid getpid : Int32}
    (hwrite : writeSharedConfigFile path config pid getpid = some file) (h : config.Documented) :
    readSharedConfigFile path (some file) = config ↔
      (∀ v ∈ config.checked, 0 ∉ v) ∧ config.socketPath.length ≤ 107 ∧
        0 ≤ config.cacheDirGeneration ∧
        config.publishedSize (if pid = 0 then getpid else pid) ≤ kMaxSharedConfigSize := by
  obtain ⟨hpath, hbreaks, rfl⟩ := writeSharedConfigFile_eq_some.1 hwrite
  simp only [readSharedConfigFile, if_neg hpath, length_content]
  by_cases hlarge : config.publishedSize (if pid = 0 then getpid else pid) > kMaxSharedConfigSize
  · rw [if_pos hlarge]
    refine ⟨fun heq => ?_, fun hall => absurd hall.2.2.2 (not_le.2 hlarge)⟩
    rw [← heq] at hlarge
    exact absurd (publishedSize_default _) (not_le.2 hlarge)
  · rw [if_neg hlarge, parseSharedConfig_content hbreaks, eq_iff_setting]
    have hsettings : (∀ k, (SharedKey.all.foldl config.reread {}).setting k = config.setting k) ↔
        ∀ k, config.Returns k := by
      refine forall_congr' fun k => ?_
      rw [(setting_foldl_reread SharedKey.nodup_all {}).2 k.mem_all]
      exact setting_reread_iff h k
    rw [hsettings, returns_iff h]
    constructor
    · rintro ⟨hnul, hlength, hgen⟩
      exact ⟨hnul, hlength, hgen, not_lt.1 hlarge⟩
    · rintro ⟨hnul, hlength, hgen, -⟩
      exact ⟨hnul, hlength, hgen⟩

/-- A configuration as it is published in practice. -/
def sample : SharedConfig where
  socketPath := lit "/run/x.sock"
  disableHtml := true
  webBotAuthVerifiedBots := lit "k=bot"
  volumeSize := 1073741824
  cacheDirGeneration := 3
  cacheMode := lit "safe"
  stripQueryParams := lit "utm_source,fbclid"

/-- A configuration with every kind of setting. -/
theorem readSharedConfigFile_written_sample :
    readSharedConfigFile (lit "/c/pagespeed-shared.conf") (some (sample.content 7)) = sample := by
  have hwrite : writeSharedConfigFile (lit "/c/pagespeed-shared.conf") sample 0 7 =
      some (sample.content 7) :=
    writeSharedConfigFile_eq_some.2 ⟨by decide, by decide +kernel, rfl⟩
  exact (readSharedConfigFile_written hwrite
    ⟨by decide +kernel, by decide +kernel, by decide +kernel⟩).2
    ⟨by decide +kernel, by decide +kernel, by decide +kernel, by decide +kernel⟩

/-- The defaults with a list of parameters that fills the file: it is published, and none of it is
read. -/
theorem readSharedConfigFile_long {params : Bytes} (hparams : Unbroken params)
    (hlength : params.length = kMaxSharedConfigSize) :
    writeSharedConfigFile (lit "/c") { stripQueryParams := params } 7 7 =
        some (content { stripQueryParams := params } 7) ∧
      readSharedConfigFile (lit "/c") (some (content { stripQueryParams := params } 7)) = {} := by
  constructor
  · refine writeSharedConfigFile_eq_some.2 ⟨by decide, ?_, rfl⟩
    simp only [checked, any_cons, any_nil, hasNewline_eq_false.2 hparams]
    decide +kernel
  · have hlarge : (content { stripQueryParams := params } 7).length > kMaxSharedConfigSize := by
      have hline : 18 + params.length + 2 ∈ SharedKey.all.filterMap fun k =>
          (written { stripQueryParams := params } k).map fun v => k.text.length + v.length + 2 :=
        mem_filterMap.2 ⟨.stripQueryParams, by decide, rfl⟩
      have hsum := single_le_sum (fun _ _ => Nat.zero_le _) _ hline
      rw [length_content, publishedSize]
      omega
    rw [readSharedConfigFile, if_neg (by decide)]
    exact if_pos hlarge

/-- A list of 64 KiB. -/
theorem not_readSharedConfigFile_written :
    ¬ ∀ (path file : Bytes) (config : SharedConfig) (pid getpid : Int32),
    config.Documented → writeSharedConfigFile path config pid getpid = some file →
    readSharedConfigFile path (some file) = config := by
  intro hall
  have hparams : Unbroken (List.replicate kMaxSharedConfigSize (ch 'a')) :=
    ⟨fun h => absurd (eq_of_mem_replicate h) (by decide), fun h =>
      absurd (eq_of_mem_replicate h) (by decide)⟩
  have hlength : (List.replicate kMaxSharedConfigSize (ch 'a')).length = kMaxSharedConfigSize :=
    length_replicate
  generalize List.replicate kMaxSharedConfigSize (ch 'a') = params at hparams hlength
  obtain ⟨hwrite, hread⟩ := readSharedConfigFile_long hparams hlength
  have hsocket : lit "/run/pagespeed-optimizer/notify.sock" ≠ [] := by decide
  have heq := hread.symm.trans (hall _ _ _ 7 7 ⟨hsocket, .inl rfl, .inl rfl⟩ hwrite)
  obtain rfl : [] = params := congrArg stripQueryParams heq
  exact absurd hlength (by decide)

end SharedConfig

end PageSpeed
