import CodeBlocks.Kcp.Link.Feed

/-!
# The receive window is never overrun

The receive loop keeps the queue of an open receiver from filling up, so the
number waited for is one that the peer still keeps, and everything that the peer
has numbered lies within the receive window. No pushed segment that arrives is
thrown away.
-/

namespace CodeBlocks.Kcp

open Serial

/-- A message that cannot be read is not complete, as long as its bytes fit in an `int`. -/
theorem not_complete_of_ikcpPeeksize {kcp : IKCPCB} (h : kcp.receiveSide.Inv)
    (hshort : (payload (ikcpMessage kcp.rcvQueue).1).length < 2 ^ 31)
    (hpeek : ikcpPeeksize kcp < 0) : ¬ Complete kcp.rcvQueue := by
  intro hcomplete
  have hlen := ikcpIntLen_eq hshort
  exact (ikcpPeeksize_nonneg_iff h).mpr ⟨hcomplete, by omega⟩ hpeek

section Linked

variable {a b : KCPSession} {hist : List IKCPSEG} {pending : List UInt8}

/-- An open receiver has read what it can, so its queue is not full. -/
theorem Feeding.queue_lt (h : Feeding a b) (hlinked : Linked a b hist pending)
    (hopen : b.closed = false) : b.kcp.rcvQueue.length < 128 := by
  have hpeek := h.readOut.resolve_left (by rw [hopen]; exact Bool.false_ne_true)
  have hcut := not_complete_of_ikcpPeeksize h.fed.inv.receive hlinked.message_short hpeek
  have hwnd := hlinked.rcvWnd_le
  have hle : b.kcp.rcvQueue.length ≤ b.kcp.rcvWnd.toNat := h.fed.inv.receive.nque_le
  cases hqueue : b.kcp.rcvQueue with
  | nil => exact Nat.succ_pos _
  | cons seg rest =>
      have hmem : seg ∈ b.kcp.rcvQueue := hqueue ▸ List.mem_cons_self
      obtain ⟨hpush, hwire⟩ := h.fed.sent seg (List.mem_append_left _ hmem)
      have hfrg := h.framing.frg_lt seg (h.conv_eq ▸ hwire) hpush
      rw [hqueue] at hcut hle
      have hcount := UInt32.lt_iff_toNat_lt.mp (not_not.mp (not_or.mp hcut).2)
      rw [UInt32.toNat_ofNat', Nat.mod_eq_of_lt (by omega), UInt32.toNat_add, UInt32.toNat_one]
        at hcount
      omega

/-- The number that an open receiver waits for is not stored. -/
theorem Feeding.missing (h : Feeding a b) (hlinked : Linked a b hist pending)
    (hopen : b.closed = false) (hrcv : b.kcp.rcvWnd = 128) :
    ∀ seg ∈ b.kcp.rcvBuf, seg.sn ≠ b.kcp.rcvNxt := by
  refine h.fed.moved.resolve_left fun hfull => ?_
  have hlt := h.queue_lt hlinked hopen
  change b.kcp.rcvQueue.length = b.kcp.rcvWnd.toNat at hfull
  rw [hfull, hrcv] at hlt
  exact absurd hlt (lt_irrefl _)

/-- Everything numbered lies within the receive window. -/
theorem Feeding.length_le (h : Feeding a b) (hlinked : Linked a b hist pending)
    (hopen : b.closed = false) (hsnd : a.kcp.sndWnd = 128) (hrcv : b.kcp.rcvWnd = 128) :
    hist.length ≤ b.kcp.rcvNxt.toNat + 128 := by
  have hbound := hlinked.bound
  by_cases hall : hist.length ≤ b.kcp.rcvNxt.toNat
  · omega
  rcases hlinked.arq.kept b.kcp.rcvNxt.toNat (not_le.mp hall) with
    ⟨core, hcore, hsn⟩ | hlow | ⟨item, seg, hseg, heq⟩
  · -- the peer keeps it, and its window starts there or before
    have hsn := UInt32.toNat_inj.mp hsn
    have hnxt : a.kcp.sndNxt.toNat = hist.length := by
      rw [hlinked.nxt_eq, UInt32.toNat_ofNat', Nat.mod_eq_of_lt (by omega)]
    have hlt := hlinked.tx.send.within.bounded core.sn (List.mem_map_of_mem hcore)
    have hflight := hlinked.tx.send.flight_le
    change dist a.kcp.sndUna a.kcp.sndNxt ≤ a.kcp.sndWnd.toNat at hflight
    have hrebase := dist_rebase hlt.le
    change dist core.sn a.kcp.sndNxt = dist a.kcp.sndUna a.kcp.sndNxt - _ at hrebase
    rw [hsnd] at hflight
    have hdist : dist core.sn a.kcp.sndNxt = hist.length - b.kcp.rcvNxt.toNat := by
      rw [Serial.dist, hsn, UInt32.toNat_sub_of_le, hnxt]
      rw [UInt32.le_iff_toNat_le, hnxt]
      exact (not_le.mp hall).le
    have h128 : (128 : UInt32).toNat = 128 := rfl
    omega
  · exact absurd hlow (lt_irrefl _)
  · have hsn := UInt32.toNat_inj.mp (Prod.mk.inj heq).1
    exact absurd hsn (h.missing hlinked hopen hrcv seg hseg)

end Linked

section Input

/-- A pushed segment before the upper end of the window is acknowledged. -/
theorem ikcpInputPush_acks {kcp : IKCPCB} (h : kcp.receiveSide.Inv) {seg : IKCPSEG}
    (hin : itimediff seg.sn (kcp.rcvNxt + kcp.rcvWnd) < 0) :
    (ikcpInputPush kcp seg).acklist = kcp.acklist ++ [(seg.sn, seg.ts)] := by
  unfold ikcpInputPush
  rw [if_pos hin]
  by_cases hlo : itimediff seg.sn (ikcpAckPush kcp seg.sn seg.ts).rcvNxt ≥ 0
  · simp only [hlo, ite_true]
    obtain ⟨buf, moved, htook⟩ := ikcpParseData_took h ((window_iff h.wnd_lt).mp ⟨hin, hlo⟩)
    exact htook.acks_eq
  · simp only [hlo, ite_false]
    rfl

/-- Input adds to the acknowledgements that are due, and takes none away. -/
theorem ikcpInputSeg_acks_subset {st : InputState} (h : st.kcp.receiveSide.Inv) (seg : IKCPSEG) :
    st.kcp.receiveSide.acks ⊆ (ikcpInputSeg st seg).kcp.receiveSide.acks := by
  rcases ikcpInputSeg_receiveSide st seg with hsame | ⟨_, kcp, hkcp, heq⟩
  · rw [hsame]
    exact List.Subset.refl _
  · rw [heq, ← hkcp]
    rcases ikcpInputPush_took (hkcp ▸ h) seg with hsame | ⟨buf, moved, htook⟩
    · rw [hsame]
      exact List.Subset.refl _
    · rw [htook.acks_eq]
      exact List.subset_append_left _ _

/-- A PUSH segment below the end of the window is acknowledged. -/
theorem ikcpInputSeg_push {st : InputState} (h : st.kcp.receiveSide.Inv) {seg : IKCPSEG}
    (hpush : seg.cmd = ikcpCmdPush)
    (hin : itimediff seg.sn (st.kcp.rcvNxt + st.kcp.rcvWnd) < 0) :
    (seg.sn, seg.ts) ∈ (ikcpInputSeg st seg).kcp.receiveSide.acks := by
  have hcommon := ikcpInputCommon_receiveSide st.kcp seg
  have hnxt : (ikcpInputCommon st.kcp seg).rcvNxt = st.kcp.rcvNxt :=
    congrArg ReceiveSide.nxt hcommon
  have hwnd : (ikcpInputCommon st.kcp seg).rcvWnd = st.kcp.rcvWnd :=
    congrArg ReceiveSide.wnd hcommon
  have hcmd : seg.cmd ≠ ikcpCmdAck := by
    rw [hpush]
    decide
  have hstep : (ikcpInputSeg st seg).kcp = ikcpInputPush (ikcpInputCommon st.kcp seg) seg := by
    simp only [ikcpInputSeg, if_neg hcmd, if_pos hpush]
  rw [← hnxt, ← hwnd] at hin
  have hacks := ikcpInputPush_acks (hcommon ▸ h) hin
  rw [hstep]
  change _ ∈ (ikcpInputPush (ikcpInputCommon st.kcp seg) seg).acklist
  rw [hacks]
  exact List.mem_append_right _ List.mem_cons_self

/-- The number waited for does not go back. -/
theorem Advanced.nxt_le {buf moved : List IKCPSEG} {r r' : ReceiveSide}
    (h : Advanced buf r r' moved) (hwnd : r.wnd.toNat < 2 ^ 31) (hnxt : r.nxt.toNat < 2 ^ 31) :
    r.nxt.toNat ≤ r'.nxt.toNat := by
  have hle := h.length_le
  rw [h.nxt_eq, UInt32.toNat_add, UInt32.toNat_ofNat',
    Nat.mod_eq_of_lt (by omega : moved.length < 2 ^ 32), Nat.mod_eq_of_lt (by omega)]
  exact Nat.le_add_right _ _

/-- No segment takes the number waited for back. -/
theorem ikcpInputSeg_nxt_le {st : InputState} (h : st.kcp.receiveSide.Inv)
    (hnxt : st.kcp.receiveSide.nxt.toNat < 2 ^ 31) (seg : IKCPSEG) :
    st.kcp.receiveSide.nxt.toNat ≤ (ikcpInputSeg st seg).kcp.receiveSide.nxt.toNat := by
  rcases ikcpInputSeg_receiveSide st seg with hsame | ⟨_, kcp, hkcp, heq⟩
  · rw [hsame]
  · rw [heq, ← hkcp]
    rw [← hkcp] at h hnxt
    rcases ikcpInputPush_took h seg with hsame | ⟨buf, moved, htook⟩
    · rw [hsame]
    · exact htook.advanced.nxt_le h.wnd_lt hnxt

end Input

/-- A receiver whose window reaches to the end of what the peer has numbered. -/
structure Spans (a b : KCPSession) (hist : List IKCPSEG) : Prop where
  linked : Linked a b hist []
  wnd_eq : b.kcp.rcvWnd = 128
  length_le : hist.length ≤ b.kcp.rcvNxt.toNat + 128

namespace Spans

variable {a b : KCPSession} {hist : List IKCPSEG}

/-- A segment that the sender put out keeps the two windows together. -/
theorem inputSeg {st : InputState} {seg : IKCPSEG} (h : Spans a (b.setKcp st.kcp) hist)
    (hw : seg.wnd.toNat < 2 ^ 16) (hwire : seg ∈ onWire a.kcp.conv a.outputs) :
    Spans a (b.setKcp (ikcpInputSeg st seg).kcp) hist := by
  have hbound := h.linked.bound
  have hnxt : st.kcp.receiveSide.nxt.toNat ≤ hist.length := h.linked.arq.next_le
  have hgrows := ikcpInputSeg_nxt_le h.linked.rx.receive (by omega) seg
  have hlen := h.length_le
  refine ⟨h.linked.rx_inputSeg hw hwire,
    (congrArg Config.rcvWnd (ikcpInputSeg_config st seg)).trans h.wnd_eq, ?_⟩
  change hist.length ≤ st.kcp.receiveSide.nxt.toNat + 128 at hlen
  change hist.length ≤ (ikcpInputSeg st seg).kcp.receiveSide.nxt.toNat + 128
  omega

/-- What the peer has sent lies before the end of the window. -/
theorem before_end (h : Spans a b hist) {seg : IKCPSEG} (hpush : seg.cmd = ikcpCmdPush)
    (hwire : seg ∈ onWire a.kcp.conv a.outputs) :
    itimediff seg.sn (b.kcp.rcvNxt + b.kcp.rcvWnd) < 0 := by
  have hbound := h.linked.bound
  have hnxt : b.kcp.rcvNxt.toNat ≤ hist.length := h.linked.arq.next_le
  have hseg := h.linked.arq.wire_hist _ _ ⟨seg, hwire, hpush, rfl⟩
  have hlt : seg.sn.toNat < hist.length := (List.getElem?_eq_some_iff.mp hseg).1
  have hlen := h.length_le
  have hend : (b.kcp.rcvNxt + b.kcp.rcvWnd).toNat = b.kcp.rcvNxt.toNat + 128 := by
    rw [h.wnd_eq, UInt32.toNat_add]
    have h128 : (128 : UInt32).toNat = 128 := rfl
    omega
  rw [itimediff_eq_sub (by omega) (by omega)]
  omega

/-- Every pushed segment of a datagram that arrives is acknowledged. -/
theorem acknowledged (h : Spans a b hist) {body : List UInt8} (hbody : body ∈ a.outputs)
    (hframed : Framed b.kcp.conv body) {seg : IKCPSEG}
    (hseg : seg ∈ (ikcpSegments body.length b.kcp.conv body).2.1)
    (hpush : seg.cmd = ikcpCmdPush) :
    (seg.sn, seg.ts) ∈ (ikcpInput b.kcp body).2.receiveSide.acks := by
  have hwire {x : IKCPSEG} (hx : x ∈ (ikcpSegments body.length b.kcp.conv body).2.1) :
      x.wnd.toNat < 2 ^ 16 ∧ x ∈ onWire a.kcp.conv a.outputs := by
    obtain ⟨bytes, rest, hread⟩ := ikcpSegments_read hx
    rw [h.linked.conv_eq] at hx
    exact ⟨ikcpReadSeg_wnd_lt hread, mem_onWire hbody hx⟩
  refine hframed.input_induct hseg (P := fun st => Spans a (b.setKcp st.kcp) hist)
    (Q := fun st => st.kcp.receiveSide.Inv ∧ (seg.sn, seg.ts) ∈ st.kcp.receiveSide.acks)
    (R := fun kcp => (seg.sn, seg.ts) ∈ kcp.receiveSide.acks) h ?_ ?_ ?_ ?_
  · intro st x hx hst
    obtain ⟨hw, hsent⟩ := hwire hx
    exact hst.inputSeg hw hsent
  · intro st hst
    have hinv := hst.linked.rx.receive
    exact ⟨ikcpInputSeg_receiveSide_inv hinv seg,
      ikcpInputSeg_push hinv hpush (hst.before_end hpush (hwire hseg).2)⟩
  · -- the segments behind take no acknowledgement away
    rintro st x _ ⟨hinv, hack⟩
    exact ⟨ikcpInputSeg_receiveSide_inv hinv x, ikcpInputSeg_acks_subset hinv x hack⟩
  · rintro st ⟨_, hack⟩
    rw [(ikcpInputEnd_sides st _).2]
    exact hack

end Spans

/-- In a joined pair no pushed segment is thrown away: as long as the receiver is open, everything
that the sender has numbered lies within the receive window, and each pushed segment of a datagram
that arrives is acknowledged and is passed or stored. -/
theorem window_never_overrun {sessionId : UInt32} {a b : KCPSession} (h : Joined sessionId a b)
    (hassigned : a.assigned < 2 ^ 30) (hopen : b.closed = false) :
    a.assigned ≤ b.kcp.rcvNxt.toNat + b.kcp.rcvWnd.toNat ∧
      ∀ body ∈ a.outputs, ∀ seg ∈ (ikcpSegments body.length b.kcp.conv body).2.1,
        seg.cmd = ikcpCmdPush →
          (seg.sn, seg.ts) ∈ (ikcpInput b.kcp body).2.acklist ∧
            (seg.sn < (ikcpInput b.kcp body).2.rcvNxt ∨
              ∃ kept ∈ (ikcpInput b.kcp body).2.rcvBuf, kept.sn = seg.sn) := by
  obtain ⟨hist, hlinked⟩ := h.linked hassigned
  obtain ⟨hsnd, hrcv⟩ := h.windows
  have hfeeding := h.feeding
  have hspans : Spans a b hist := ⟨hlinked, hrcv, hfeeding.length_le hlinked hopen hsnd hrcv⟩
  constructor
  · rw [hlinked.assigned_eq, hrcv]
    exact hspans.length_le
  · intro body hbody seg hseg hpush
    have hframed := hfeeding.conv_eq ▸ hfeeding.framing.framed body hbody
    have hack := hspans.acknowledged hbody hframed hseg hpush
    refine ⟨hack, ?_⟩
    -- what is acknowledged is there
    rcases (hlinked.rx_input hbody).arq.acks_has seg.sn.toNat (Or.inl ⟨_, hack, rfl⟩) with
      hlow | ⟨item, kept, hkept, heq⟩
    · exact Or.inl (UInt32.lt_iff_toNat_lt.mpr hlow)
    · exact Or.inr ⟨kept, hkept, UInt32.toNat_inj.mp (Prod.mk.inj heq).1⟩

/-- The datagram of the greeting arrives once more and is acknowledged once more. -/
theorem window_never_overrun_greeting :
    ∃ ts, (0, ts) ∈ (ikcpInput greeted.kcp (greeter.outputs.headD [])).2.acklist := by
  have hall := (window_never_overrun joined_greeting (by decide +kernel) (by decide +kernel)).2
  have hpushed : ∃ seg ∈ (ikcpSegments (greeter.outputs.headD []).length greeted.kcp.conv
      (greeter.outputs.headD [])).2.1, seg.cmd = ikcpCmdPush ∧ seg.sn = 0 := by
    decide +kernel
  obtain ⟨seg, hseg, hpush, hsn⟩ := hpushed
  have hack := (hall _ (by decide +kernel) seg hseg hpush).1
  exact ⟨seg.ts, hsn ▸ hack⟩

end CodeBlocks.Kcp
