import PageSpeed.Proof.HeadersSidecar
import PageSpeed.Spec.RestampPlan

/-!
# A 304 merges the headers and keeps the carry state

* `plan_of_storedFields`, `plan_of_unmerged`: the plan with and without something to merge.
* `restampAction_of_kept`, `storedFields_of_restampOnly`: what an entry replays that is kept.
* `notOverridden_again`: merging once more with the same 304 changes nothing.
* `restamp_merges`: what follows for each action.
-/

namespace PageSpeed.Cache

open Wire

variable {flags : UInt8} {stored : Option Bytes} {fields response304 : List HeaderField}

/-- What a merged list gives every later client from its block. -/
def allowlisted (fields : List HeaderField) : List HeaderField :=
  fields.filter (contains kAllowlist ·.name)

/-- The plan, where the stored headers can be read. -/
theorem plan_of_storedFields (hclassified : headersClassified flags)
    (h : storedFields flags stored = some fields) :
    planRestampSidecar flags stored response304 =
      { action := restampAction (sidecarRequired flags) stored
          (classifyForHeadersSidecar (notOverridden fields response304 ++ response304))
        merged := notOverridden fields response304 ++ response304
        storedNotOverridden := notOverridden fields response304
        classification :=
          classifyForHeadersSidecar (notOverridden fields response304 ++ response304) } := by
  unfold planRestampSidecar
  rw [if_neg (by simp [hclassified]), h]

/-- Nothing is merged for an entry of before the gate, and none if the required block is not
there. -/
theorem plan_of_unmerged (h : headersClassified flags = false ∨ storedFields flags stored = none) :
    planRestampSidecar flags stored response304 =
      { action := if headersClassified flags then .remove else .legacy } := by
  unfold planRestampSidecar
  by_cases hclassified : headersClassified flags
  · rw [if_neg (by simp [hclassified]), h.resolve_left (by simp [hclassified]), if_pos hclassified]
  · rw [if_pos (by simpa using hclassified), if_neg hclassified]

/-- The actions that keep an entry keep its carry state, and differ by whether the block is the
stored one. -/
theorem restampAction_of_kept {required : Bool}
    (h : restampAction required stored (classifyForHeadersSidecar fields) ≠ .remove) :
    (required = true ↔ allowlisted fields ≠ []) ∧
      (required = true → parseHeadersSidecar (classifyForHeadersSidecar fields).payload =
        some (allowlisted fields)) ∧
      ∀ payload, restampAction required payload (classifyForHeadersSidecar fields) =
        if required = false ∨ some (classifyForHeadersSidecar fields).payload = payload then
          .restampOnly
        else .rewriteThenRestamp := by
  have hverdict : (classifyForHeadersSidecar fields).verdict = .swapEligible := by
    by_contra hother
    exact h (if_pos hother)
  have hrequired : decide ((classifyForHeadersSidecar fields).payload ≠ []) = required := by
    by_contra hother
    exact h ((if_neg (not_not.2 hverdict)).trans (if_pos hother))
  obtain ⟨-, hempty, hparse⟩ := payload_of_swapEligible hverdict
  have hcarry : required = true ↔ allowlisted fields ≠ [] := by
    rw [← hrequired, decide_eq_true_iff]
    exact not_congr hempty
  refine ⟨hcarry, fun hrequired => hparse (hcarry.1 hrequired), fun payload => ?_⟩
  unfold restampAction
  rw [if_neg (not_not.2 hverdict), if_neg (not_not.2 hrequired), hrequired]

/-- Nothing is rewritten only if the stored block is the new one. -/
theorem storedFields_of_restampOnly
    (h : restampAction (sidecarRequired flags) stored (classifyForHeadersSidecar fields) =
      .restampOnly) :
    storedFields flags stored = some (allowlisted fields) := by
  obtain ⟨hcarry, hparse, haction⟩ := restampAction_of_kept (h.trans_ne (by decide))
  rw [haction] at h
  by_cases hrequired : sidecarRequired flags
  · have hsame : some (classifyForHeadersSidecar fields).payload = stored := by
      by_contra hother
      simp [hrequired, hother] at h
    rw [storedFields, if_pos hrequired, ← hsame]
    exact hparse hrequired
  · rw [storedFields, if_neg hrequired, not_not.1 (mt hcarry.2 hrequired)]

/-- What parses of a payload that the gate has made is on the allowlist. -/
theorem allowlisted_of_parse {origin : List HeaderField}
    (h : parseHeadersSidecar (classifyForHeadersSidecar origin).payload = some fields) :
    allowlisted fields = fields := by
  have hne : (classifyForHeadersSidecar origin).payload ≠ [] := by
    intro hnil
    rw [hnil] at h
    cases h
  have hverdict : (classifyForHeadersSidecar origin).verdict = .swapEligible := by
    by_contra hverdict
    refine hne ?_
    unfold classifyForHeadersSidecar at hverdict ⊢
    simp only at hverdict ⊢
    split_ifs at hverdict ⊢ <;> simp_all
  obtain ⟨-, hempty, hparse⟩ := payload_of_swapEligible hverdict
  rw [hparse (fun hnil => hne (hempty.2 hnil)), Option.some.injEq] at h
  rw [← h, allowlisted, List.filter_filter]
  simp only [Bool.and_self]

/-- Stored fields are allowed ones. -/
theorem allowlisted_of_storedFields {origin : Option (List HeaderField)}
    (h : storedFields flags (origin.map fun headers =>
      (classifyForHeadersSidecar headers).payload) = some fields) :
    allowlisted fields = fields := by
  unfold storedFields at h
  split_ifs at h
  · obtain ⟨payload, hpayload, hparse⟩ := Option.bind_eq_some_iff.1 h
    obtain ⟨headers, -, rfl⟩ := Option.map_eq_some_iff.1 hpayload
    exact allowlisted_of_parse hparse
  · rw [← Option.some.inj h]
    rfl

/-- The lines of a 304 override themselves, and what they do not override stays. -/
theorem notOverridden_again (h : allowlisted fields = fields) :
    notOverridden (allowlisted (notOverridden fields response304 ++ response304)) response304 =
      notOverridden fields response304 := by
  have hself : notOverridden (allowlisted response304) response304 = [] := by
    refine List.filter_eq_nil_iff.2 fun line hline => ?_
    have hany : response304.any (fun other => headerNameEquals line.name other.name) = true :=
      List.any_eq_true.2 ⟨line, List.mem_of_mem_filter hline, decide_eq_true rfl⟩
    simp [hany]
  have hkept : notOverridden (allowlisted (notOverridden fields response304)) response304 =
      notOverridden fields response304 := by
    unfold allowlisted at h ⊢
    unfold notOverridden
    rw [List.filter_comm _ _ fields, h]
    rw [List.filter_filter]
    simp only [Bool.and_self]
  unfold allowlisted at hself hkept ⊢
  rw [List.filter_append, notOverridden, List.filter_append]
  exact (congrArg₂ (· ++ ·) hkept hself).trans (List.append_nil _)

/-- **A 304 merges the headers and never mixes carry states.** With a stored block that the gate has
made (or with none) a plan that has something to merge merges as RFC 9111 says. If it keeps the
entry as it is, the entry replays the fields of the allowlist of the merged list; if it writes a
block, that block does, and a plan for the new block and the same 304 has nothing to write. An entry
that is kept requires a block if and only if the merged list has fields for one. -/
theorem restamp_merges (flags : UInt8) (origin : Option (List HeaderField))
    (response304 : List HeaderField) :
    let stored := origin.map fun headers => (classifyForHeadersSidecar headers).payload
    let plan := planRestampSidecar flags stored response304
    (∀ fields, headersClassified flags → storedFields flags stored = some fields →
      plan.merged = (fields.filter fun f => ∀ line ∈ response304,
        asciiLower f.name ≠ asciiLower line.name) ++ response304) ∧
    (headersClassified flags = false ∨ storedFields flags stored = none →
      plan.merged = [] ∧ plan.action = if headersClassified flags then .remove else .legacy) ∧
    (plan.action = .restampOnly → storedFields flags stored = some (allowlisted plan.merged)) ∧
    (plan.action = .rewriteThenRestamp →
      parseHeadersSidecar plan.classification.payload = some (allowlisted plan.merged) ∧
        planRestampSidecar flags (some plan.classification.payload) response304 =
          { plan with action := .restampOnly }) ∧
    (plan.action = .restampOnly ∨ plan.action = .rewriteThenRestamp →
      (sidecarRequired flags ↔ allowlisted plan.merged ≠ [])) := by
  intro stored plan
  -- nothing can be merged if no one has classified the headers or the block is lost
  by_cases hmerge : headersClassified flags = false ∨ storedFields flags stored = none
  · have hplan : plan = { action := if headersClassified flags then .remove else .legacy } :=
      plan_of_unmerged hmerge
    refine ⟨fun fields hclassified hfields => ?_, fun _ => by simp [hplan], ?_⟩
    · simp [hclassified, hfields] at hmerge
    · rw [hplan]
      split_ifs <;> simp
  obtain ⟨hclassified, hstored⟩ := not_or.1 hmerge
  rw [Bool.not_eq_false] at hclassified
  obtain ⟨fields, hfields⟩ := Option.ne_none_iff_exists'.1 hstored
  have hplan : plan = _ := plan_of_storedFields hclassified hfields
  rw [hplan]
  refine ⟨fun other _ hother => ?_, fun hnot => absurd hnot hmerge, storedFields_of_restampOnly,
    fun hrewrite => ?_,
    fun hkept =>
      (restampAction_of_kept (hkept.elim (·.trans_ne (by decide)) (·.trans_ne (by decide)))).1⟩
  · obtain rfl : fields = other := Option.some.inj (hfields.symm.trans hother)
    refine congrArg (· ++ response304) (List.filter_congr fun f _ => ?_)
    rw [Bool.eq_iff_iff]
    simp [headerNameEquals, asciiEqualsIgnoreCase]
  · -- the written block has the merged fields, and the same 304 finds nothing to write over it
    obtain ⟨-, hparse, haction⟩ := restampAction_of_kept (hrewrite.trans_ne (by decide))
    have hrequired : sidecarRequired flags := by
      by_contra hnot
      simp [haction, hnot] at hrewrite
    have hwritten : storedFields flags (some _) = _ := (if_pos hrequired).trans (hparse hrequired)
    refine ⟨hparse hrequired, ?_⟩
    rw [plan_of_storedFields hclassified hwritten,
      notOverridden_again (allowlisted_of_storedFields hfields), haction, if_pos (.inr rfl)]

/-- A 304 with another policy: the block is written again, and then there is nothing to write. -/
theorem restamp_merges_policy :
    let flags := kFlagHeadersClassified ||| kFlagHeadersSidecarRequired
    let origin : List HeaderField :=
      [⟨lit "Referrer-Policy", lit "origin"⟩, ⟨lit "X-Robots-Tag", lit "none"⟩]
    let response304 : List HeaderField := [⟨lit "referrer-policy", lit "no-referrer"⟩]
    let plan :=
      planRestampSidecar flags (some (classifyForHeadersSidecar origin).payload) response304
    plan.action = .rewriteThenRestamp ∧
      plan.merged = [⟨lit "X-Robots-Tag", lit "none"⟩, ⟨lit "referrer-policy", lit "no-referrer"⟩] ∧
      (planRestampSidecar flags (some plan.classification.payload) response304).action =
        .restampOnly ∧ allowlisted plan.merged ≠ [] := by
  intro flags origin response304 plan
  have haction : plan.action = .rewriteThenRestamp := by decide +kernel
  obtain ⟨hmerged, -, -, hrewrite, hrequired⟩ := restamp_merges flags (some origin) response304
  have hstored : storedFields flags (some (classifyForHeadersSidecar origin).payload) =
      some origin := by
    decide +kernel
  refine ⟨haction, ?_, ?_, (hrequired (.inr haction)).1 (by decide)⟩
  · exact (hmerged origin (by decide) hstored).trans (by decide +kernel)
  · exact congrArg (·.action) (hrewrite haction).2

/-- An entry of before the gate has nothing merged, also if the 304 has lines. -/
theorem restamp_legacy_unmerged :
    (planRestampSidecar 0 (some (classifyForHeadersSidecar []).payload)
      [⟨lit "Vary", lit "Accept"⟩]).merged ≠ [⟨lit "Vary", lit "Accept"⟩] := by
  decide

end PageSpeed.Cache
