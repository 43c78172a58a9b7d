import CodeBlocks.Kcp.Invariant.Fragments
import CodeBlocks.Kcp.Link.Feed

/-!
# What a session has numbered

The history of one session, whatever arrives at it: every number that it has
given out stands on a pushed segment that it has output, no two of these say
different things, and the fragment numbers of the history and of what is still
queued count down to the end of each message.
-/

namespace CodeBlocks.Kcp

/-- Fragment numbers of whole messages: each is one more than the next, or zero. -/
def Countdown : List UInt32 → Prop
  | [] => True
  | frg :: rest =>
    (frg = 0 ∨ ∃ next, rest.head? = some next ∧ frg.toNat = next.toNat + 1) ∧ Countdown rest

namespace Countdown

/-- One row of whole messages after another. -/
theorem append {xs ys : List UInt32} (hx : Countdown xs) (hy : Countdown ys) :
    Countdown (xs ++ ys) := by
  induction xs with
  | nil => exact hy
  | cons frg xs ih =>
      refine ⟨hx.1.imp_right ?_, ih hx.2⟩
      rintro ⟨next, hhead, heq⟩
      refine ⟨next, ?_, heq⟩
      change (xs ++ ys).head? = some next
      rw [List.head?_append, hhead]
      rfl

/-- Any rest of the row is counted down as well. -/
theorem of_append {xs ys : List UInt32} (h : Countdown (xs ++ ys)) : Countdown ys := by
  induction xs with
  | nil => exact h
  | cons frg xs ih => exact ih h.2

/-- The last number is zero. -/
theorem last {xs : List UInt32} {frg : UInt32} (h : Countdown (xs ++ [frg])) : frg = 0 := by
  rcases h.of_append.1 with hzero | ⟨next, hnone, _⟩
  · exact hzero
  · cases hnone

/-- A message does not end before its count has run down. -/
theorem lt_length {frg : UInt32} {rest : List UInt32} (h : Countdown (frg :: rest)) :
    frg.toNat < (frg :: rest).length := by
  induction rest generalizing frg with
  | nil =>
      have hzero := @last [] frg h
      rw [hzero]
      exact Nat.zero_lt_one
  | cons next rest ih =>
      have hnext := ih h.2
      rw [List.length_cons]
      rcases h.1 with hzero | ⟨_, hhead, heq⟩
      · rw [hzero]
        exact Nat.succ_pos _
      · cases hhead
        omega

/-- Messages of one fragment each. -/
theorem of_zeros {xs : List UInt32} (h : ∀ frg ∈ xs, frg = 0) : Countdown xs := by
  induction xs with
  | nil => trivial
  | cons frg xs ih =>
      obtain ⟨hzero, hrest⟩ := List.forall_mem_cons.mp h
      exact ⟨Or.inl hzero, ih hrest⟩

/-- One message of several fragments. -/
theorem of_range {n : Nat} (hn : n ≤ 2 ^ 32) :
    Countdown ((List.range n).reverse.map UInt32.ofNat) := by
  induction n with
  | zero => trivial
  | succ n ih =>
      have hrest := ih (by omega)
      rw [List.range_succ, List.reverse_append, List.reverse_singleton, List.singleton_append,
        List.map_cons]
      refine ⟨?_, hrest⟩
      cases n with
      | zero => exact Or.inl rfl
      | succ n =>
          refine Or.inr ⟨UInt32.ofNat n, ?_, ?_⟩
          · rw [List.range_succ, List.reverse_append, List.reverse_singleton,
              List.singleton_append, List.map_cons, List.head?_cons]
          · rw [UInt32.toNat_ofNat', UInt32.toNat_ofNat', Nat.mod_eq_of_lt (by omega),
              Nat.mod_eq_of_lt (by omega)]

end Countdown

/-- The fragments of a write are whole messages. -/
theorem countdown_ikcpFragment (mss : Nat) {streamMode : Bool} {count : Nat}
    (hcount : streamMode = false → count ≤ 2 ^ 32) (buffer : List UInt8) :
    Countdown ((ikcpFragment mss streamMode count buffer).map IKCPSEG.frg) := by
  cases streamMode with
  | false =>
      rw [ikcpFragment_frg_message]
      exact Countdown.of_range (hcount rfl)
  | true =>
      apply Countdown.of_zeros
      intro frg hfrg
      obtain ⟨seg, hseg, rfl⟩ := List.mem_map.mp hfrg
      exact ikcpFragment_frg_stream mss count buffer seg hseg

/-- Filling up the last segment leaves its number, which is zero. -/
theorem ikcpExtendTail_frg (mss : Nat) {queue : List IKCPSEG} (buffer : List UInt8)
    {front : List UInt32} (h : Countdown (front ++ queue.map IKCPSEG.frg)) :
    (ikcpExtendTail mss queue buffer).1.map IKCPSEG.frg = queue.map IKCPSEG.frg := by
  rcases ikcpExtendTail_spec mss queue buffer with heq | ⟨init, old, extend, rfl, -, heq⟩
  · rw [heq]
  · rw [List.map_append, List.map_singleton, ← List.append_assoc] at h
    rw [heq, List.map_append, List.map_append, List.map_singleton, List.map_singleton, h.last]

/-- A write queues whole messages behind what is there. -/
theorem ikcpWrite_countdown {kcp : IKCPCB} {front : List UInt32}
    (h : Countdown (front ++ kcp.sndQueue.map IKCPSEG.frg)) (data : List UInt8)
    (alwaysStream : Bool) :
    Countdown (front ++ (ikcpWrite kcp data alwaysStream).2.sndQueue.map IKCPSEG.frg) := by
  by_cases hneg : ikcpIntLen data < 0
  · rw [ikcpWrite, if_pos hneg]
    exact h
  rw [ikcpWrite, if_neg hneg]
  generalize (decide (kcp.stream ≠ 0) || alwaysStream) = streamMode
  generalize data.take (ikcpIntLen data).toNat = buffer
  have hqueue : ∃ queue buffer',
      (if streamMode then ikcpExtendTail kcp.mss.toNat kcp.sndQueue buffer
        else (kcp.sndQueue, buffer)) = (queue, buffer') ∧
      queue.map IKCPSEG.frg = kcp.sndQueue.map IKCPSEG.frg := by
    cases streamMode with
    | false => exact ⟨_, _, rfl, rfl⟩
    | true => exact ⟨_, _, rfl, ikcpExtendTail_frg kcp.mss.toNat buffer h⟩
  obtain ⟨queue, buffer', heq, hfrg⟩ := hqueue
  simp only [heq]
  split
  · change Countdown (front ++ queue.map IKCPSEG.frg)
    rwa [hfrg]
  split
  · exact h
  · rename_i hfew
    change Countdown (front ++ (queue ++ ikcpFragment _ _ _ buffer').map IKCPSEG.frg)
    rw [List.map_append, hfrg, ← List.append_assoc]
    refine h.append (countdown_ikcpFragment _ (fun hmode => ?_) buffer')
    rw [hmode] at hfew
    have hlt : ikcpFragmentCount kcp.mss.toNat buffer'.length < ikcpWndRcv.toNat := by
      simpa using hfew
    exact hlt.le.trans ikcpWndRcv.toNat_lt.le

section Flush

theorem map_numbered_frg (conv nxt : UInt32) (segs : List IKCPSEG) :
    (numbered conv nxt segs).map IKCPSEG.frg = segs.map IKCPSEG.frg := by
  induction segs generalizing nxt with
  | nil => rfl
  | cons seg segs ih => rw [numbered, List.map_cons, ih, List.map_cons]

/-- A segment that gets its number has not been sent before. -/
theorem ikcpFillLoop_added (cwnd wnd current : UInt32) (queue : List IKCPSEG) (kcp : IKCPCB) :
    ∃ added, (ikcpFillLoop cwnd wnd current queue kcp).sndBuf = kcp.sndBuf ++ added ∧
      ∀ seg ∈ added, seg.xmit = 0 := by
  induction queue generalizing kcp with
  | nil => exact ⟨[], (List.append_nil _).symm, List.forall_mem_nil _⟩
  | cons newseg rest ih =>
      unfold ikcpFillLoop
      split
      · obtain ⟨added, hbuf, hnew⟩ := ih _
        refine ⟨_ :: added, hbuf.trans (List.append_assoc _ [_] added), ?_⟩
        exact List.forall_mem_cons.mpr ⟨rfl, hnew⟩
      · exact ⟨[], (List.append_nil _).symm, List.forall_mem_nil _⟩

/-- The segments that a flush moves have not been sent yet. -/
theorem ikcpFlushHead_added (kcp : IKCPCB) (current : UInt32) :
    ∃ added, (ikcpFlushHead kcp current).1.sndBuf = kcp.sndBuf ++ added ∧
      ∀ seg ∈ added, seg.xmit = 0 := by
  have hbuf : (ikcpProbed kcp current).sndBuf = kcp.sndBuf := by
    simp only [ikcpProbed, ikcpProbeTimer]
    repeat' split
    all_goals rfl
  rw [ikcpFlushHead_kcp, ← hbuf]
  exact ikcpFillLoop_added _ _ _ _ _

/-- What is due is among the segments of the flush. -/
theorem mem_ikcpFlushSegs_of_due {kcp : IKCPCB} {current : UInt32} {seg : IKCPSEG}
    (hseg : seg ∈ (ikcpFlushHead kcp current).1.sndBuf)
    (hdue : ikcpNeedsend (ikcpFlushHead kcp current).1 current
      (ikcpResent (ikcpFlushHead kcp current).1) seg = true) :
    ∃ sent ∈ (ikcpFlushSegs kcp current).map IKCPSEG.received, sent.core = seg.core := by
  refine ⟨_, List.mem_map_of_mem (List.mem_append_right _ (List.mem_map_of_mem
    (List.mem_filter.mpr ⟨hseg, hdue⟩))), ?_⟩
  exact ikcpRearm_core _ current _ seg _

/-- Every number that a flush gives out stands on a segment of that flush. -/
theorem Numbers.sent {s : KCPSession} {currentMs : UInt32} {moved rest : List IKCPSEG}
    (hn : Numbers s currentMs moved rest) {seg : IKCPSEG}
    (hseg : seg ∈ numbered s.kcp.conv s.kcp.sndNxt moved) :
    ∃ sent ∈ (ikcpFlushSegs s.kcp currentMs).map IKCPSEG.received,
      sent.cmd = ikcpCmdPush ∧ sent.core = seg := by
  obtain ⟨added, hbuf, hnew⟩ := ikcpFlushHead_added s.kcp currentMs
  have hside : (ikcpFlushHead s.kcp currentMs).1.sendSide.buf =
      s.kcp.sendSide.buf ++ numbered s.kcp.conv s.kcp.sndNxt moved := by
    rw [← ikcpFlush_sendSide]
    exact congrArg SendSide.buf hn.side_eq
  have hcores : added.map IKCPSEG.core = numbered s.kcp.conv s.kcp.sndNxt moved := by
    simp only [IKCPCB.sendSide, hbuf, List.map_append] at hside
    exact List.append_cancel_left hside
  rw [← hcores] at hseg
  obtain ⟨x, hx, rfl⟩ := List.mem_map.mp hseg
  have hmem : x ∈ (ikcpFlushHead s.kcp currentMs).1.sndBuf := hbuf ▸ List.mem_append_right _ hx
  obtain ⟨sent, hsent, hcore⟩ := mem_ikcpFlushSegs_of_due hmem (by
    simp [ikcpNeedsend, ikcpSendReason, hnew x hx])
  have hpushed := hn.inv.pushed x.core (by
    rw [hn.side_eq]
    exact List.mem_append_right _ (hcores ▸ List.mem_map_of_mem hx))
  exact ⟨sent, hsent, (congrArg IKCPSEG.cmd hcore).trans hpushed.2, hcore⟩

end Flush

/-- The segments that a session has numbered, in order. -/
structure KCPSession.History (s : KCPSession) (hist : List IKCPSEG) : Prop where
  inv : s.kcp.Inv
  bound : hist.length < 2 ^ 30
  assigned_eq : s.assigned = hist.length
  nxt_eq : s.kcp.sndNxt = UInt32.ofNat hist.length
  buffered : ∀ seg ∈ s.kcp.sendSide.buf, hist[seg.sn.toNat]? = some seg
  pushed : ∀ seg ∈ onWire s.kcp.conv s.outputs, seg.cmd = ikcpCmdPush →
    hist[seg.sn.toNat]? = some seg.core
  output : ∀ n < hist.length, ∃ seg ∈ onWire s.kcp.conv s.outputs,
    seg.cmd = ikcpCmdPush ∧ seg.sn.toNat = n
  countdown : Countdown ((hist ++ s.kcp.sndQueue).map IKCPSEG.frg)

namespace KCPSession.History

variable {s s' : KCPSession} {hist : List IKCPSEG}

/-- A step that numbers and outputs nothing. -/
theorem unnumbered (h : s.History hist) (hinv : s'.kcp.Inv)
    (hconfig : s'.kcp.config = s.kcp.config) (hout : s'.outputs = s.outputs)
    (hassigned : s'.assigned = s.assigned) (hnxt : s'.kcp.sndNxt = s.kcp.sndNxt)
    (hbuf : s'.kcp.sendSide.buf ⊆ s.kcp.sendSide.buf)
    (hcount : Countdown ((hist ++ s'.kcp.sndQueue).map IKCPSEG.frg)) : s'.History hist := by
  have hconv : s'.kcp.conv = s.kcp.conv := congrArg Config.conv hconfig
  constructor
  · exact hinv
  · exact h.bound
  · exact hassigned.trans h.assigned_eq
  · exact hnxt.trans h.nxt_eq
  · exact fun seg hseg => h.buffered seg (hbuf hseg)
  · rw [hconv, hout]
    exact h.pushed
  · rw [hconv, hout]
    exact h.output
  · exact hcount

/-- A step that the sending half does not notice. -/
theorem same (h : s.History hist) (hinv : s'.kcp.Inv) (hconfig : s'.kcp.config = s.kcp.config)
    (hout : s'.outputs = s.outputs) (hassigned : s'.assigned = s.assigned)
    (hside : s'.kcp.sendSide = s.kcp.sendSide) : s'.History hist := by
  have hqueue : s'.kcp.sndQueue = s.kcp.sndQueue := congrArg SendSide.queue hside
  refine h.unnumbered hinv hconfig hout hassigned (congrArg SendSide.nxt hside) ?_ ?_
  · rw [hside]
    exact List.Subset.refl _
  · rw [hqueue]
    exact h.countdown

/-- Writing leaves what was numbered. -/
theorem write (h : s.History hist) (data : List UInt8) (alwaysStream : Bool) :
    (s.setKcp (ikcpWrite s.kcp data alwaysStream).2).History hist := by
  have hinv := h.inv.of_config (ikcpWrite_inv h.inv.mss_pos h.inv.send data alwaysStream)
    (ikcpWrite_receiveSide s.kcp data alwaysStream ▸ h.inv.receive)
    (ikcpWrite_config s.kcp data alwaysStream)
  have hcount := h.countdown
  rw [List.map_append] at hcount
  have hwritten := ikcpWrite_countdown hcount data alwaysStream
  rw [← List.map_append] at hwritten
  rcases ikcpWrite_cases h.inv.mss_pos data alwaysStream with
    ⟨_, heq, _⟩ | ⟨queue, added, _, heq⟩
  · rwa [heq]
  · exact h.unnumbered hinv (ikcpWrite_config s.kcp data alwaysStream) rfl rfl (by rw [heq]; rfl)
      (by rw [heq]; exact List.Subset.refl _) hwritten

/-- So does a datagram. -/
theorem input (h : s.History hist) (data : List UInt8) :
    (s.setKcp (ikcpInput s.kcp data).2).History hist := by
  refine ikcpInput_induct (P := fun kcp => (s.setKcp kcp).History hist) data h ?_ ?_
  · intro st seg hseg hst
    obtain ⟨bytes, rest, hread⟩ := ikcpSegments_read hseg
    have hw := ikcpReadSeg_wnd_lt hread
    obtain ⟨kept, hsub, _, heq⟩ := ikcpInputSeg_shrunk hst.inv.send hw
    have hqueue : (ikcpInputSeg st seg).kcp.sndQueue = st.kcp.sndQueue :=
      congrArg SendSide.queue heq
    refine hst.unnumbered (ikcpInputSeg_inv hst.inv hw) (ikcpInputSeg_config st seg) rfl rfl
      (congrArg SendSide.nxt heq) ?_ ?_
    · intro x hx
      change x ∈ (ikcpInputSeg st seg).kcp.sendSide.buf at hx
      rw [heq] at hx
      exact hsub.subset hx
    · change Countdown ((hist ++ (ikcpInputSeg st seg).kcp.sndQueue).map IKCPSEG.frg)
      rw [hqueue]
      exact hst.countdown
  · intro st hst
    exact hst.same (ikcpInputEnd_inv hst.inv _) (ikcpInputEnd_config st _) rfl rfl
      (ikcpInputEnd_sides st _).1

/-- So does reading. -/
theorem receive (h : s.History hist) (size : Int) : (s.receive size).History hist := by
  obtain ⟨hkcp, _, _, htrace⟩ := s.receive_spec size
  refine h.same ?_ ?_ (congrArg KCPSession.Trace.outputs htrace)
    (congrArg KCPSession.Trace.assigned htrace) ?_
  · rw [hkcp]
    exact ControlCall.run_inv h.inv (.recv (Int32.ofInt size))
  · rw [hkcp]
    exact ikcpRecv_config s.kcp _
  · rw [hkcp, ikcpRecv_sendSide]

/-- The wire behind a flush. -/
theorem onWire_flush (h : s.History hist) (currentMs : UInt32) :
    onWire s.kcp.conv (s.flush currentMs).outputs =
      onWire s.kcp.conv s.outputs ++ (ikcpFlushSegs s.kcp currentMs).map IKCPSEG.received := by
  have hout : (s.flush currentMs).outputs = s.outputs ++ (ikcpFlush s.kcp currentMs).sent :=
    congrArg KCPSession.Trace.outputs (s.flush_trace currentMs)
  rw [hout, onWire_append, ← ikcpFlush_segments h.inv currentMs]
  rfl

/-- A flush extends the history by the segments that it numbers, and outputs them. -/
theorem flush (h : s.History hist) (currentMs : UInt32) :
    2 ^ 30 ≤ (s.flush currentMs).assigned ∨
      ∃ more, (s.flush currentMs).History (hist ++ more) := by
  obtain ⟨moved, rest, hn⟩ := flush_numbers h.inv currentMs
  by_cases hover : 2 ^ 30 ≤ (s.flush currentMs).assigned
  · exact Or.inl hover
  have hassigned : (s.flush currentMs).assigned = hist.length + moved.length := by
    rw [hn.assigned_eq, h.assigned_eq]
  have hconv : (s.flush currentMs).kcp.conv = s.kcp.conv :=
    congrArg Config.conv (ikcpFlush_config s.kcp currentMs)
  have hnxt : (s.flush currentMs).kcp.sndNxt = s.kcp.sndNxt + UInt32.ofNat moved.length :=
    congrArg SendSide.nxt hn.side_eq
  have hrest : (s.flush currentMs).kcp.sndQueue = rest := congrArg SendSide.queue hn.side_eq
  have hbuf := hn.buf_eq h.nxt_eq
  have hfound := getElem?_numbered s.kcp.conv moved hist (by omega)
  have hbuffered : ∀ seg ∈ (s.flush currentMs).kcp.sendSide.buf,
      (hist ++ numbered s.kcp.conv (UInt32.ofNat hist.length) moved)[seg.sn.toNat]? =
        some seg := by
    intro seg hseg
    rw [hbuf] at hseg
    rcases List.mem_append.mp hseg with hseg | hseg
    · exact Arq.getElem?_of_prefix (List.prefix_append hist _) (h.buffered seg hseg)
    · exact hfound seg hseg
  refine Or.inr ⟨numbered s.kcp.conv (UInt32.ofNat hist.length) moved, ?_⟩
  constructor
  · exact ControlCall.run_inv h.inv (.flush currentMs)
  · rw [List.length_append, length_numbered]
    omega
  · rw [hassigned, List.length_append, length_numbered]
  · rw [hnxt, h.nxt_eq, List.length_append, length_numbered, UInt32.ofNat_add]
  · exact hbuffered
  · intro seg hseg hcmd
    rw [hconv] at hseg
    rcases flush_pushed h.inv currentMs hseg hcmd with hold | hsent
    · exact Arq.getElem?_of_prefix (List.prefix_append hist _) (h.pushed seg hold hcmd)
    · exact hbuffered seg.core hsent
  · intro n hlt
    rw [List.length_append, length_numbered] at hlt
    rw [hconv, h.onWire_flush]
    by_cases hold : n < hist.length
    · obtain ⟨seg, hseg, hpush, hsn⟩ := h.output n hold
      exact ⟨seg, List.mem_append_left _ hseg, hpush, hsn⟩
    · -- a number given out just now
      obtain ⟨seg, hseg, hsn⟩ := exists_numbered s.kcp.conv (not_lt.mp hold) hlt (by omega)
      rw [← h.nxt_eq] at hseg
      obtain ⟨sent, hsent, hpush, hcore⟩ := hn.sent hseg
      refine ⟨sent, List.mem_append_right _ hsent, hpush, ?_⟩
      rw [← hsn, ← hcore, IKCPSEG.core_sn]
  · have hcount := h.countdown
    rw [hn.queue_eq] at hcount
    rw [hrest]
    simpa only [List.map_append, map_numbered_frg, List.append_assoc] using hcount

end KCPSession.History

/-- A session keeps a history until the numbers run out. -/
def KCPSession.Historied (s : KCPSession) : Prop := 2 ^ 30 ≤ s.assigned ∨ ∃ hist, s.History hist

/-- Every primitive step keeps the history, whatever arrives. -/
theorem SessionStep.historied {arrives : List UInt8 → Prop} {s s' : KCPSession}
    {p p' : List UInt8} (hstep : SessionStep arrives (s, p) (s', p')) (h : s.Historied) :
    s'.Historied := by
  rcases h with hover | ⟨hist, h⟩
  · exact Or.inl (hover.trans hstep.assigned_le)
  cases hstep with
  | written =>
      have htrace := s.log_written_trace p'
      exact Or.inr ⟨hist, h.same h.inv rfl (congrArg KCPSession.Trace.outputs htrace)
        (congrArg KCPSession.Trace.assigned htrace) rfl⟩
  | enqueue _ taken _ alwaysStream => exact Or.inr ⟨hist, h.write taken alwaysStream⟩
  | refuse _ taken _ alwaysStream => exact Or.inr ⟨hist, h.write taken alwaysStream⟩
  | discard => exact Or.inr ⟨hist, h⟩
  | flush _ _ currentMs => exact (h.flush currentMs).imp_right fun ⟨more, hmore⟩ => ⟨_, hmore⟩
  | input _ data => exact Or.inr ⟨hist, h.input data⟩
  | receive _ size => exact Or.inr ⟨hist, h.receive size⟩
  | quiet _ _ event hquiet =>
      have htrace := s.log_trace hquiet
      exact Or.inr ⟨hist, h.same h.inv rfl (congrArg KCPSession.Trace.outputs htrace)
        (congrArg KCPSession.Trace.assigned htrace) rfl⟩
  | address => exact Or.inr ⟨hist, h.same h.inv rfl rfl rfl rfl⟩
  | closing => exact Or.inr ⟨hist, h.same h.inv rfl rfl rfl rfl⟩

/-- A sender keeps a history: before anything is written it is empty. -/
theorem Joined.historied {sessionId : UInt32} {a b : KCPSession} (h : Joined sessionId a b) :
    a.Historied := by
  have hsteps {arrives : List UInt8 → Prop} {s s' : KCPSession}
      (hrun : SessionSteps arrives (s, []) (s', [])) (hs : s.Historied) : s'.Historied :=
    hrun.preserves (P := fun s _ => s.Historied) (fun _ _ _ _ hstep hs => hstep.historied hs) hs
  induction h with
  | fresh _ _ _ _ _ _ _ _ ha _ =>
      obtain ⟨kcp, hkcp, hrun⟩ := KCPSession.initializeWith_steps ha
      refine hsteps (hrun fun _ => False) (Or.inr ⟨[], ?_⟩)
      have hside := (initializeControl_spec hkcp).sendSide_eq
      have hqueue : kcp.sndQueue = [] := congrArg SendSide.queue hside
      constructor
      · exact initializeControl_inv hkcp
      · simp
      · rfl
      · exact congrArg SendSide.nxt hside
      · simp [hside]
      · simp [onWire, KCPSession.outputs]
      · simp
      · simp [hqueue, Countdown]
  | left _ task harrives ih => exact hsteps (SessionTask.run_steps _ harrives) ih
  | right _ _ _ ih => exact ih

/-- The history of a sender is the one that its link speaks of. -/
theorem KCPSession.History.eq_of_linked {a b : KCPSession} {hist hist' : List IKCPSEG}
    {pending : List UInt8} (h : a.History hist) (hlinked : Linked a b hist' pending) :
    hist = hist' := by
  have hlen : hist.length = hist'.length := h.assigned_eq.symm.trans hlinked.assigned_eq
  apply List.ext_getElem?
  intro n
  by_cases hlt : n < hist.length
  · obtain ⟨seg, hseg, hpush, rfl⟩ := h.output n hlt
    have hitem := hlinked.arq.wire_hist _ _ ⟨seg, hseg, hpush, rfl⟩
    exact (h.pushed seg hseg hpush).trans hitem.symm
  · rw [List.getElem?_eq_none (not_lt.mp hlt), List.getElem?_eq_none (by omega)]

end CodeBlocks.Kcp
