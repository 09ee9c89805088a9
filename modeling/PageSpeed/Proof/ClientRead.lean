import PageSpeed.Proof.Ipc
import PageSpeed.Spec.ClientRead
import PageSpeed.Wire.Stream

/-!
# The notification stream

* `notificationFraming`: the frames of the socket.
* `Follows.step`: the connection does what a reader of frames does that hands on those it accepts.
* `onClientRead_delivers`: a stream of notifications is delivered whole, and the cut of any stream
  only decides how far it is read.
-/

namespace PageSpeed

open Wire CacheNotification ClientContext List Framing

/-! ## Frames -/

/-- The reader never leaves the message. -/
theorem deserialize_total (d : Bytes) (old : CacheNotification) :
    ∃ out, deserialize d old = .ok out := by
  rcases lt_or_ge d.length 5 with h5 | h5
  · exact ⟨_, deserialize_short h5 old⟩
  · rw [deserialize_eq h5]
    split_ifs with hlen hversion
    · exact ⟨_, rfl⟩
    · exact ⟨_, rfl⟩
    · obtain ⟨r, hr⟩ := (contained_deserializeFields ⟨.kMalformed, scalarAt UInt8 d 4⟩).total d
        (4 + header d) (5, old)
        (not_lt.1 hlen)
      exact ⟨outcome r, by rw [hr]; rfl⟩

/-- The notification in a frame, if it is accepted. -/
def notificationOf (f : Bytes) : Option CacheNotification :=
  match deserialize f freshNotification with
  | .ok out => if out.accepted then some out.notification else none
  | .error _ => none

variable (limits : ReadLimits)

/-- What a buffer of the socket starts with. -/
def notificationFraming : Framing UInt8 where
  head b :=
    if b.length < 4 then .more
    else if msgLen b > limits.maxRequestSize then .refuse
    else if b.length < 4 + msgLen b then .more
    else .frame (4 + msgLen b)
  frame_le := by
    intro b n h
    split_ifs at h
    simp only [Head.frame.injEq] at h
    omega
  stable := by
    intro b s h
    split_ifs at h with h4 hmax hlen
    · exact absurd rfl h
    · have hs : msgLen (b ++ s) = msgLen b := header_append (not_lt.1 h4) s
      rw [if_neg h4, if_pos hmax, if_neg (by rw [List.length_append]; omega),
        if_pos (by rw [hs]; exact hmax)]
    · exact absurd rfl h
    · have hs : msgLen (b ++ s) = msgLen b := header_append (not_lt.1 h4) s
      rw [if_neg h4, if_neg hmax, if_neg hlen, if_neg (by rw [List.length_append]; omega),
        if_neg (by rw [hs]; exact hmax), if_neg (by rw [List.length_append, hs]; omega), hs]

theorem head_nil : (notificationFraming limits).head [] = .more := rfl

/-! ## One read -/

variable (ctx : ClientContext)

/-- A frame is dispatched if it is a notification, and nothing else changes. -/
theorem readNotification_spec (f : Bytes) : ∃ ctx', ctx.readNotification f = .ok ctx' ∧
    ctx'.dispatched = ctx.dispatched ++ (notificationOf f).toList ∧ ctx'.closing = ctx.closing := by
  obtain ⟨out, hout⟩ := deserialize_total f freshNotification
  unfold readNotification notificationOf
  rw [hout]
  simp only [Bind.bind, Except.bind]
  split_ifs
  · exact ⟨_, rfl, rfl, rfl⟩
  · exact ⟨_, rfl, (append_nil _).symm, rfl⟩
  · exact ⟨_, rfl, (append_nil _).symm, rfl⟩

/-- **The loop drains the buffer.** -/
theorem processBuffer_spec (b : Bytes) :
    ∃ ctx', processBuffer limits ctx b = .ok ctx' ∧
      ctx'.dispatched = ctx.dispatched ++
        ((notificationFraming limits).drain b).1.filterMap notificationOf ∧
      match ((notificationFraming limits).drain b).2 with
      | some rest => ctx'.buffer = rest ∧ ctx'.closing = ctx.closing
      | none => ctx'.closing = true := by
  induction hb : b.length using Nat.strong_induction_on generalizing ctx b with
  | _ k ih =>
    -- the four ways the source leaves a turn are those of the framing
    unfold processBuffer
    split_ifs with h4 hmax hlen
    · have hhead : (notificationFraming limits).head b = .more := if_pos h4
      rw [drain_more hhead]
      exact ⟨_, rfl, (append_nil _).symm, rfl, rfl⟩
    · have hhead : (notificationFraming limits).head b = .refuse := by
        simp only [notificationFraming, if_neg h4, if_pos hmax]
      rw [drain_refuse hhead]
      exact ⟨_, rfl, (append_nil _).symm, rfl⟩
    · have hhead : (notificationFraming limits).head b = .more := by
        simp only [notificationFraming, if_neg h4, if_neg hmax, if_pos hlen]
      rw [drain_more hhead]
      exact ⟨_, rfl, (append_nil _).symm, rfl, rfl⟩
    · have hhead : (notificationFraming limits).head b = .frame (4 + msgLen b) := by
        simp only [notificationFraming, if_neg h4, if_neg hmax, if_neg hlen]
      obtain ⟨ctx₁, hread, hdisp, hclosing⟩ := readNotification_spec ctx (b.take (4 + msgLen b))
      obtain ⟨ctx₂, hrest, hdisp₂, hstate⟩ :=
        ih _ (by rw [length_drop]; omega) ctx₁ (b.drop (4 + msgLen b)) rfl
      refine ⟨ctx₂, ?_, ?_, ?_⟩
      · rw [hread]
        exact hrest
      · rw [drain_frame hhead, hdisp₂, hdisp, filterMap_cons, append_assoc]
        cases notificationOf (b.take (4 + msgLen b)) <;> rfl
      · rw [drain_frame hhead, ← hclosing]
        exact hstate

/-- The connection has handed on the notifications of the frames a reader has taken, and its buffer
is the reader's until both have given up. -/
def Follows (st : List Bytes × Option Bytes) : Prop :=
  ctx.dispatched = st.1.filterMap notificationOf ∧
    match st.2 with
    | some rest => ctx.buffer = rest ∧ ctx.closing = false
    | none => ctx.closing = true

/-- **A read of the connection is a read of the reader.** -/
theorem Follows.step {ctx : ClientContext} {st : List Bytes × Option Bytes} {data : Bytes}
    (h : Follows ctx st) (hdata : data ≠ []) : ∃ ctx',
      onClientRead limits ctx (some data) = .ok ctx' ∧
      Follows ctx' ((notificationFraming limits).feed limits.maxBufferSize st data) := by
  obtain ⟨frames, buffer⟩ := st
  cases buffer with
  | none =>
    obtain ⟨hdisp, hclosing⟩ := h
    refine ⟨ctx, ?_, hdisp, hclosing⟩
    rw [onClientRead, if_pos hclosing]
  | some buffer =>
    obtain ⟨hdisp, rfl, hclosing⟩ := h
    unfold onClientRead Framing.feed
    simp only [hclosing, Bool.false_eq_true, if_false, if_neg hdata]
    split_ifs with hlimit
    · exact ⟨_, rfl, hdisp, rfl⟩
    · obtain ⟨ctx', hctx', hdisp', hstate⟩ := processBuffer_spec limits ctx (ctx.buffer ++ data)
      refine ⟨ctx', hctx', ?_, ?_⟩
      · rw [hdisp', hdisp, filterMap_append]
      · rw [← hclosing]
        exact hstate

/-- The connection follows the framing over any reads. -/
theorem readAll_follows {reads : List Bytes} (hreads : ∀ r ∈ reads, r ≠ []) :
    ∃ ctx, readAll limits reads = .ok ctx ∧
      Follows ctx ((notificationFraming limits).feedAll limits.maxBufferSize reads) := by
  induction reads using reverseRecOn with
  | nil => exact ⟨{}, rfl, rfl, rfl, rfl⟩
  | append_singleton reads data ih =>
    obtain ⟨ctx, hctx, hfollows⟩ := ih fun r hr => hreads r (by simp [hr])
    obtain ⟨ctx', hctx', hfollows'⟩ := hfollows.step limits (hreads data (by simp))
    refine ⟨ctx', ?_, ?_⟩
    · rw [readAll, foldlM_append, ← readAll, hctx]
      simp [Bind.bind, Except.bind, hctx', pure, Except.pure]
    · rw [feedAll_snoc]
      exact hfollows'

/-! ## The stream -/

variable {n : CacheNotification}

theorem not_refuses_of_serialize (h : n.serialize ≠ []) : n.refuses = false := by
  by_contra hr
  rw [Bool.not_eq_false] at hr
  exact h (by rw [serialize, if_pos hr])

/-- The longest frame there is. -/
def kMaxFrame : ℕ := 33435

/-- The length in front of a message is that of the message. -/
theorem length_serialize (h : n.refuses = false) :
    n.serialize.length = 4 + n.totalSize ∧ n.serialize.length ≤ kMaxFrame := by
  obtain ⟨hu, hh, -, hc, -, hg, hs'⟩ := sendable_of_not_refuses h
  have hs := (sendable_of_not_refuses h).site_length
  have hl := n.length_payloadFields
  have hlen : n.serialize.length = 4 + n.totalSize := by
    rw [serialize_eq h]
    simp only [length_append, Scalar.length_toBe, Scalar.width_uint8, Scalar.width_uint32]
    omega
  refine ⟨hlen, ?_⟩
  rw [hlen]
  unfold kMaxUrlLength at hu
  unfold kMaxHostnameLength at hh
  unfold kMaxOptionContextBytes at hc
  unfold kOptionContextSignatureChars at hg
  unfold kSiteIdChars at hs
  unfold totalSize kMaxFrame
  omega

/-- A message that is sent is read back. -/
theorem notificationOf_serialize (h : n.refuses = false) : notificationOf n.serialize = some n := by
  rw [notificationOf, deserialize_sendable h]
  rfl

/-- And it is one frame. -/
theorem isFrame_serialize (h : n.refuses = false) :
    (notificationFraming {}).IsFrame n.serialize := by
  obtain ⟨hlen, hmax⟩ := length_serialize h
  have hmsg : msgLen n.serialize = n.totalSize := by
    rw [serialize_eq h]
    exact (header_toBe _ _).trans
      (UInt32.toNat_ofNat_of_lt' (sendable_of_not_refuses h).totalSize_lt)
  unfold kMaxFrame at hmax
  show (if n.serialize.length < 4 then Head.more else _) = _
  rw [hmsg, hlen, if_neg (by omega), if_neg (show ¬ n.totalSize > 10 * 1024 * 1024 by omega),
    if_neg (by omega)]

/-- **The stream is delivered whatever the reads look like.** With the default limits, notifications
that are sent as one stream and read in pieces of at most 65536 bytes are dispatched in order, on a
connection that stays open; and of any stream two cuts dispatch the same notifications as far as the
shorter one goes. -/
theorem onClientRead_delivers :
    (∀ (ns : List CacheNotification) (reads : List Bytes), (∀ n ∈ ns, n.serialize ≠ []) →
      (∀ r ∈ reads, 1 ≤ r.length ∧ r.length ≤ 65536) → reads.flatten = (ns.map serialize).flatten →
      ∃ ctx, readAll {} reads = .ok ctx ∧ ctx.dispatched = ns ∧ ctx.closing = false ∧
        ctx.buffer = []) ∧
    ∀ (limits : ReadLimits) (reads reads' : List Bytes), (∀ r ∈ reads, r ≠ []) →
      (∀ r ∈ reads', r ≠ []) → reads.flatten = reads'.flatten →
      ∃ ctx ctx', readAll limits reads = .ok ctx ∧ readAll limits reads' = .ok ctx' ∧
        (ctx.dispatched <+: ctx'.dispatched ∨ ctx'.dispatched <+: ctx.dispatched) := by
  constructor
  · intro ns reads hns hreads hflat
    have hsend : ∀ n ∈ ns, n.refuses = false := fun n hn => not_refuses_of_serialize (hns n hn)
    have hne : ∀ r ∈ reads, r ≠ [] := by
      rintro r hr rfl
      exact absurd (hreads [] hr).1 (by simp)
    obtain ⟨ctx, hctx, hfollows⟩ := readAll_follows {} hne
    have hfeed : (notificationFraming {}).feedAll (1024 * 1024) reads =
        (ns.map serialize, some []) := by
      refine feedAll_frames (head_nil _) ?_ (n := kMaxFrame) ?_ (fun r hr => (hreads r hr).2)
        (by decide) hflat
      · intro f hf
        obtain ⟨n, hn, rfl⟩ := mem_map.1 hf
        exact isFrame_serialize (hsend n hn)
      · intro f hf
        obtain ⟨n, hn, rfl⟩ := mem_map.1 hf
        exact (length_serialize (hsend n hn)).2
    rw [hfeed] at hfollows
    obtain ⟨hdisp, hbuffer, hclosing⟩ := hfollows
    refine ⟨ctx, hctx, ?_, hclosing, hbuffer⟩
    rw [hdisp, filterMap_map]
    calc ns.filterMap (notificationOf ∘ serialize)
        = ns.filterMap some := filterMap_congr fun n hn => notificationOf_serialize (hsend n hn)
      _ = ns := filterMap_some
  · intro limits reads reads' hreads hreads' hflat
    obtain ⟨ctx, hctx, hdisp, -⟩ := readAll_follows limits hreads
    obtain ⟨ctx', hctx', hdisp', -⟩ := readAll_follows limits hreads'
    refine ⟨ctx, ctx', hctx, hctx', ?_⟩
    -- both are prefixes of what the whole stream holds
    have h := (feedAll_starts limits.maxBufferSize (head_nil limits) reads).filterMap notificationOf
    have h' :=
      (feedAll_starts limits.maxBufferSize (head_nil limits) reads').filterMap notificationOf
    rw [hdisp, hdisp']
    rw [← hflat] at h'
    exact prefix_or_prefix_of_prefix h h'

/-- Two notifications, cut inside the header of the second one. -/
theorem onClientRead_delivers_two :
    ∃ n m : CacheNotification, n ≠ m ∧ n.serialize ≠ [] ∧ m.serialize ≠ [] ∧
      ∃ ctx, readAll {} [n.serialize ++ m.serialize.take 2, m.serialize.drop 2] = .ok ctx ∧
        ctx.dispatched = [n, m] ∧ ctx.closing = false ∧ ctx.buffer = [] := by
  obtain ⟨n, m, hne, hn, hm⟩ : ∃ n m : CacheNotification, n ≠ m ∧ n.refuses = false ∧
      m.refuses = false :=
    ⟨{ url := lit "/a", hostname := lit "h", scheme := lit "https", contentType := .kCss,
       capabilityMask := 12 },
      { url := lit "/b", hostname := lit "h", scheme := lit "http", contentType := .kHtml,
        capabilityMask := 0 }, by decide, by decide, by decide⟩
  obtain ⟨hlen, hmax⟩ := length_serialize hn
  obtain ⟨hlen', hmax'⟩ := length_serialize hm
  unfold kMaxFrame at hmax hmax'
  have hn' : n.serialize ≠ [] := ne_nil_of_length_pos (by omega)
  have hm' : m.serialize ≠ [] := ne_nil_of_length_pos (by omega)
  refine ⟨n, m, hne, hn', hm', onClientRead_delivers.1 [n, m] _ ?_ ?_ (by simp)⟩
  · exact forall_mem_cons.2 ⟨hn', forall_mem_singleton.2 hm'⟩
  · refine forall_mem_cons.2 ⟨?_, forall_mem_singleton.2 ?_⟩
    · rw [length_append, length_take]
      omega
    · rw [length_drop]
      omega

end PageSpeed
