import CodeBlocks.Kcp.Link.Feed

/-!
# What the receiver has passed is let go

Every segment of a receiver announces the number that it waits for, and the sender
that reads it keeps no number below, whatever else the datagram acknowledges. So
one datagram of a receiver that has passed everything empties the sender's buffer.
-/

namespace CodeBlocks.Kcp

section Input

/-- The loop of `ikcp_parse_una` stops at the first number that is not passed, so where the numbers
ascend it leaves none that is. -/
theorem ikcpParseUnaLoop_kept (una : UInt32) {buf : List IKCPSEG} (nsndBuf : UInt32)
    (h : buf.Pairwise fun x y => itimediff una y.sn > 0 → itimediff una x.sn > 0) :
    ∀ seg ∈ (ikcpParseUnaLoop una buf nsndBuf).1, ¬ itimediff una seg.sn > 0 := by
  induction buf generalizing nsndBuf with
  | nil => exact List.forall_mem_nil _
  | cons first rest ih =>
      obtain ⟨hfirst, hrest⟩ := List.pairwise_cons.mp h
      unfold ikcpParseUnaLoop
      split
      · exact ih _ hrest
      · rename_i hkept
        intro seg hseg hpassed
        rcases List.mem_cons.mp hseg with rfl | hseg
        · exact hkept hpassed
        · exact hkept (hfirst seg hseg hpassed)

theorem ikcpInputCommon_sndBuf (kcp : IKCPCB) (seg : IKCPSEG) :
    (ikcpInputCommon kcp seg).sndBuf = (ikcpParseUnaLoop seg.una kcp.sndBuf kcp.nsndBuf).1 := by
  unfold ikcpInputCommon ikcpShrinkBuf
  split <;> rfl

/-- Behind the window and `una` of a segment the buffer only loses segments. -/
theorem ikcpInputSeg_sublist {st : InputState} (h : st.kcp.sendSide.Inv) {seg : IKCPSEG}
    (hw : seg.wnd.toNat < 2 ^ 16) :
    (ikcpInputSeg st seg).kcp.sendSide.buf.Sublist
      (ikcpInputCommon st.kcp seg).sendSide.buf := by
  have hr : ({ st.kcp with rmtWnd := seg.wnd } : IKCPCB).sendSide.Inv := h.setRmt hw
  have hinv : (ikcpInputCommon st.kcp seg).sendSide.Inv := (ikcpParseUna_shrunk hr seg.una).inv hr
  unfold ikcpInputSeg
  simp only
  split
  · obtain ⟨kept, hsub, _, heq⟩ := ikcpInputAck_shrunk ⟨ikcpInputCommon st.kcp seg, st.maxack⟩
      hinv seg
    rw [heq]
    exact hsub
  split
  · simp only [ikcpInputPush_sendSide]
    exact List.Sublist.refl _
  split
  · exact List.Sublist.refl _
  · exact List.Sublist.refl _

end Input

section Linked

variable {a b : KCPSession} {hist : List IKCPSEG} {pending : List UInt8}

/-- A number that the sender keeps is one of the history. -/
theorem Linked.sn_lt (h : Linked a b hist pending) {seg : IKCPSEG} (hseg : seg ∈ a.kcp.sndBuf) :
    seg.sn.toNat < hist.length :=
  (List.getElem?_eq_some_iff.mp (h.buffered seg.core (List.mem_map_of_mem hseg))).1

/-- No number wraps, so those that the sender keeps ascend as naturals. -/
theorem Linked.ascending (h : Linked a b hist pending) :
    a.kcp.sndBuf.Pairwise fun x y => x.sn.toNat < y.sn.toNat := by
  have hbound := h.bound
  have hflight : Serial.dist a.kcp.sndUna a.kcp.sndNxt < 2 ^ 16 := h.tx.send.flight_lt
  have hwithin : Serial.Within a.kcp.sndUna (Serial.dist a.kcp.sndUna a.kcp.sndNxt)
      ((a.kcp.sndBuf.map IKCPSEG.core).map IKCPSEG.sn) := h.tx.send.within
  rw [map_core_sn] at hwithin
  refine (List.pairwise_map.mp hwithin.ascending).imp_of_mem fun {x y} hx hy hlt => ?_
  have hxdist := hwithin.bounded x.sn (List.mem_map_of_mem hx)
  have hydist := hwithin.bounded y.sn (List.mem_map_of_mem hy)
  have hxlt := h.sn_lt hx
  have hylt := h.sn_lt hy
  have huna := a.kcp.sndUna.toNat_lt
  simp only [Serial.dist, UInt32.toNat_sub] at hlt hxdist hydist hflight
  omega

/-- A segment of the peer lets go of the numbers below the one that it announces. -/
theorem Linked.released_seg {st : InputState} {seg : IKCPSEG}
    (h : Linked (a.setKcp st.kcp) b hist pending) (hw : seg.wnd.toNat < 2 ^ 16)
    (hwire : seg ∈ onWire st.kcp.conv b.outputs) :
    ∀ kept ∈ (ikcpInputSeg st seg).kcp.sendSide.buf, seg.una.toNat ≤ kept.sn.toNat := by
  have hbound := h.bound
  have huna : seg.una.toNat ≤ hist.length :=
    (h.arq.unas_le seg.una.toNat ⟨seg, hwire, rfl⟩).trans h.arq.next_le
  have hpassed {x : IKCPSEG} (hx : x ∈ st.kcp.sndBuf) :
      itimediff seg.una x.sn > 0 ↔ x.sn.toNat < seg.una.toNat := by
    have hlt := h.sn_lt hx
    rw [itimediff_eq_sub (by omega) (by omega)]
    omega
  have hascending : st.kcp.sndBuf.Pairwise fun x y => x.sn.toNat < y.sn.toNat := h.ascending
  have hkept := ikcpParseUnaLoop_kept seg.una st.kcp.nsndBuf
    (hascending.imp_of_mem fun {x y} hx hy hlt hy' =>
      (hpassed hx).mpr (hlt.trans ((hpassed hy).mp hy')))
  intro kept hmem
  have hcommon := (ikcpInputSeg_sublist h.tx.send hw).subset hmem
  obtain ⟨x, hx, rfl⟩ := List.mem_map.mp hcommon
  rw [ikcpInputCommon_sndBuf] at hx
  obtain ⟨gone, rest, hsplit, _, heq⟩ :=
    ikcpParseUnaLoop_spec seg.una st.kcp.sndBuf st.kcp.nsndBuf
  have hbuf : x ∈ st.kcp.sndBuf := by
    rw [heq] at hx
    exact hsplit ▸ List.mem_append_right gone hx
  exact not_lt.mp fun hlt => hkept x hx ((hpassed hbuf).mpr hlt)

/-- So does a datagram, for each of its segments. -/
theorem Linked.released (h : Linked a b hist []) (hframing : b.Framing) {body : List UInt8}
    (hbody : body ∈ b.outputs) {seg : IKCPSEG}
    (hseg : seg ∈ (ikcpSegments body.length a.kcp.conv body).2.1) :
    ∀ kept ∈ (ikcpInput a.kcp body).2.sendSide.buf, seg.una.toNat ≤ kept.sn.toNat := by
  have hframed : Framed a.kcp.conv body := h.conv_eq ▸ hframing.framed body hbody
  have hstep (st : InputState) (x : IKCPSEG)
      (hx : x ∈ (ikcpSegments body.length a.kcp.conv body).2.1)
      (hst : st.kcp.conv = a.kcp.conv ∧ Linked (a.setKcp st.kcp) b hist []) :
      x.wnd.toNat < 2 ^ 16 ∧ x ∈ onWire st.kcp.conv b.outputs ∧
        (ikcpInputSeg st x).kcp.conv = a.kcp.conv ∧
        Linked (a.setKcp (ikcpInputSeg st x).kcp) b hist [] := by
    obtain ⟨hconv, hlinked⟩ := hst
    obtain ⟨bytes, rest, hread⟩ := ikcpSegments_read hx
    rw [← hconv] at hx
    have hwire := mem_onWire hbody hx
    have hconfig : (ikcpInputSeg st x).kcp.conv = st.kcp.conv :=
      congrArg Config.conv (ikcpInputSeg_config st x)
    exact ⟨ikcpReadSeg_wnd_lt hread, hwire, hconfig.trans hconv,
      hlinked.tx_inputSeg (ikcpReadSeg_wnd_lt hread) hwire⟩
  refine hframed.input_induct hseg
    (P := fun st => st.kcp.conv = a.kcp.conv ∧ Linked (a.setKcp st.kcp) b hist [])
    (Q := fun st => (st.kcp.conv = a.kcp.conv ∧ Linked (a.setKcp st.kcp) b hist []) ∧
      ∀ kept ∈ st.kcp.sendSide.buf, seg.una.toNat ≤ kept.sn.toNat)
    (R := fun kcp => ∀ kept ∈ kcp.sendSide.buf, seg.una.toNat ≤ kept.sn.toNat)
    ⟨rfl, h⟩ (fun st x hx hst => (hstep st x hx hst).2.2) ?_ ?_ ?_
  · intro st hst
    obtain ⟨hw, hwire, hnext⟩ := hstep st seg hseg hst
    exact ⟨hnext, hst.2.released_seg hw hwire⟩
  · -- the segments behind only remove
    rintro st x hx ⟨hst, hkept⟩
    obtain ⟨hw, _, hnext⟩ := hstep st x hx hst
    obtain ⟨kept, hsub, _, heq⟩ := ikcpInputSeg_shrunk hst.2.tx.send hw
    refine ⟨hnext, fun s hs => hkept s ?_⟩
    rw [heq] at hs
    exact hsub.subset hs
  · rintro st ⟨_, hkept⟩
    rw [(ikcpInputEnd_sides st _).1]
    exact hkept

end Linked

/-- The two ends of a pair are alike. -/
theorem Joined.symm {sessionId : UInt32} {a b : KCPSession} (h : Joined sessionId a b) :
    Joined sessionId b a := by
  induction h with
  | fresh addressA addressB callbacksA callbacksB callsA callsB hmessageA hmessageB ha hb =>
      exact .fresh addressB addressA callbacksB callbacksA callsB callsA hmessageB hmessageA hb ha
  | left _ task harrives ih => exact ih.right task harrives
  | right _ task harrives ih => exact ih.left task harrives

/-- Every datagram of a flush announces the number that the receiver waits for. -/
theorem flush_announces {b : KCPSession} (h : b.kcp.Inv) (currentMs : UInt32) {body : List UInt8}
    (hbody : body ∈ (ikcpFlush b.kcp currentMs).sent) :
    ∃ seg ∈ (ikcpSegments body.length b.kcp.conv body).2.1, seg.una = b.kcp.rcvNxt := by
  have hsegs : onWire b.kcp.conv (ikcpFlush b.kcp currentMs).sent =
      (ikcpFlushSegs b.kcp currentMs).map IKCPSEG.received := ikcpFlush_segments h currentMs
  have hsome : ∃ seg, seg ∈ (ikcpSegments body.length b.kcp.conv body).2.1 := by
    obtain ⟨groups, hsent, _, hlen, hsendable⟩ := ikcpFlush_groups h currentMs
    rw [hsent] at hbody
    obtain ⟨group, hgroup, rfl⟩ := List.mem_map.mp hbody
    rw [ikcpSegments_group (hsendable group hgroup)]
    cases group with
    | nil => exact absurd (hlen [] hgroup).1 (by decide)
    | cons seg rest => exact ⟨seg.received, List.mem_cons_self⟩
  obtain ⟨seg, hseg⟩ := hsome
  refine ⟨seg, hseg, ?_⟩
  have hwire := mem_onWire hbody hseg
  rw [hsegs] at hwire
  exact (ikcpFlushSegs_fields h currentMs hwire).1

/-- In a joined pair every datagram of a flush of the receiver, when it arrives, makes the sender
let go of all numbers that the receiver has passed. -/
theorem flush_releases {sessionId : UInt32} {a b : KCPSession} (h : Joined sessionId a b)
    (hassigned : a.assigned < 2 ^ 30) (currentMs : UInt32) :
    ∀ body ∈ (ikcpFlush b.kcp currentMs).sent,
      (∀ kept ∈ (ikcpInput a.kcp body).2.sndBuf, b.kcp.rcvNxt ≤ kept.sn) ∧
        (b.kcp.rcvNxt = a.kcp.sndNxt → (ikcpInput a.kcp body).2.sndBuf = []) := by
  intro body hbody
  obtain ⟨hist, hlinked⟩ := h.linked hassigned
  have hframing := h.symm.feeding.framing
  have hflushed := hlinked.rx_flush currentMs
  have hout : (b.flush currentMs).outputs = b.outputs ++ (ikcpFlush b.kcp currentMs).sent :=
    congrArg KCPSession.Trace.outputs (b.flush_trace currentMs)
  have hsent : body ∈ (b.flush currentMs).outputs := hout ▸ List.mem_append_right _ hbody
  obtain ⟨seg, hseg, huna⟩ := flush_announces hframing.inv currentMs hbody
  rw [hlinked.conv_eq] at hseg
  have hreleased := hflushed.released (hframing.flush currentMs) hsent hseg
  rw [huna] at hreleased
  have hkept : ∀ kept ∈ (ikcpInput a.kcp body).2.sndBuf, b.kcp.rcvNxt ≤ kept.sn := fun kept hmem =>
    UInt32.le_iff_toNat_le.mpr (hreleased kept.core (List.mem_map_of_mem hmem))
  refine ⟨hkept, fun hall => List.eq_nil_iff_forall_not_mem.mpr fun kept hmem => ?_⟩
  -- what is kept was numbered
  have hlt := (hflushed.tx_input hsent).sn_lt hmem
  have hle := UInt32.le_iff_toNat_le.mp (hkept kept hmem)
  have hbound := hlinked.bound
  rw [hall, hlinked.nxt_eq, UInt32.toNat_ofNat', Nat.mod_eq_of_lt (by omega)] at hle
  omega

/-- The writer keeps nothing after the first datagram that its peer sends back. -/
theorem flush_releases_greeting :
    ∃ body ∈ (ikcpFlush (SessionTask.run (freshSession ⟨"10.0.0.1:9000"⟩)
        (arrivalFrom greeter)).kcp 50).sent, (ikcpInput greeter.kcp body).2.sndBuf = [] := by
  have harrives : greeter.outputs.headD [] ∈ greeter.outputs := by decide +kernel
  have hsome : ∃ body, body ∈ (ikcpFlush (SessionTask.run (freshSession ⟨"10.0.0.1:9000"⟩)
      (arrivalFrom greeter)).kcp 50).sent := by
    apply List.exists_mem_of_ne_nil
    decide +kernel
  obtain ⟨body, hbody⟩ := hsome
  exact ⟨body, hbody, (flush_releases (joined_greeter.right (arrivalFrom greeter) harrives)
    (by decide +kernel) 50 body hbody).2 (by decide +kernel)⟩

end CodeBlocks.Kcp
