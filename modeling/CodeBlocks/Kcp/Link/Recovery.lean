import CodeBlocks.Kcp.Link.History
import CodeBlocks.Kcp.Link.Window

/-!
# Nothing is lost for good

In every state of a joined pair the datagrams that the sender has already output
are enough: when the network repeats some of them, the receiver passes everything
that was numbered, and hands out everything that was written as far as whole
messages were numbered.
-/

namespace CodeBlocks.Kcp

section Receiver

/-- Reading never takes the number waited for back. -/
theorem ikcpRecv_nxt_le {kcp : IKCPCB} (h : kcp.receiveSide.Inv)
    (hnxt : kcp.receiveSide.nxt.toNat < 2 ^ 31) (len : Int32) :
    kcp.receiveSide.nxt.toNat ≤ (ikcpRecv kcp len).kcp.receiveSide.nxt.toNat := by
  rcases ikcpRecv_cases kcp len with ⟨_, _, heq⟩ | ⟨_, _, recover, heq⟩
  · rw [heq]
  · rw [heq, ikcpRecover_receiveSide]
    split
    · obtain ⟨_, hadvanced, _⟩ := ikcpMove_advanced h
      exact hadvanced.nxt_le h.wnd_lt hnxt
    · obtain ⟨_, hadvanced, _⟩ := ikcpMove_advanced (ikcpDeliver_inv h)
      exact hadvanced.nxt_le h.wnd_lt hnxt

end Receiver

section Linked

variable {a b b' : KCPSession} {hist : List IKCPSEG} {pending p p' : List UInt8}

/-- The number that a receiver waits for does not go back. -/
theorem Linked.rx_nxt_le (h : Linked a b hist pending)
    (hstep : SessionStep (· ∈ a.outputs) (b, p) (b', p')) :
    b.kcp.receiveSide.nxt.toNat ≤ b'.kcp.receiveSide.nxt.toNat := by
  have hbound := h.bound
  have hnxt : b.kcp.receiveSide.nxt.toNat ≤ hist.length := h.arq.next_le
  cases hstep with
  | enqueue _ taken _ alwaysStream =>
      exact (congrArg (·.nxt.toNat) (ikcpWrite_receiveSide b.kcp taken alwaysStream)).ge
  | refuse _ taken _ alwaysStream =>
      exact (congrArg (·.nxt.toNat) (ikcpWrite_receiveSide b.kcp taken alwaysStream)).ge
  | flush _ _ currentMs =>
      exact (congrArg (·.nxt.toNat) (ikcpFlush_receiveSide b.kcp currentMs)).ge
  | input _ data harrives =>
      refine (ikcpInput_induct (P := fun kcp => Linked a (b.setKcp kcp) hist pending ∧
        b.kcp.receiveSide.nxt.toNat ≤ kcp.receiveSide.nxt.toNat) data ⟨h, le_rfl⟩ ?_ ?_).2
      · rintro st seg hseg ⟨hst, hle⟩
        obtain ⟨bytes, rest, hread⟩ := ikcpSegments_read hseg
        rw [h.conv_eq] at hseg
        have hlow : st.kcp.receiveSide.nxt.toNat ≤ hist.length := hst.arq.next_le
        exact ⟨hst.rx_inputSeg (ikcpReadSeg_wnd_lt hread) (mem_onWire harrives hseg),
          hle.trans (ikcpInputSeg_nxt_le hst.rx.receive (by omega) seg)⟩
      · rintro st ⟨hst, hle⟩
        have hside := (ikcpInputEnd_sides st b.kcp.sndUna).2
        exact ⟨hst.rx_same (ikcpInputEnd_inv hst.rx _) (ikcpInputEnd_config st _) rfl hside rfl rfl,
          hside.symm ▸ hle⟩
  | receive _ size =>
      rw [(b.receive_spec size).1]
      exact ikcpRecv_nxt_le h.rx.receive (by omega) _
  | _ => exact le_rfl

/-- Nor does anything that the receiver does. -/
theorem Linked.rx_steps_nxt_le (h : Linked a b hist [])
    (hsteps : SessionSteps (· ∈ a.outputs) (b, []) (b', [])) :
    Linked a b' hist [] ∧ b.kcp.receiveSide.nxt.toNat ≤ b'.kcp.receiveSide.nxt.toNat := by
  refine hsteps.preserves (P := fun s _ => Linked a s hist [] ∧
    b.kcp.receiveSide.nxt.toNat ≤ s.kcp.receiveSide.nxt.toNat) ?_ ⟨h, le_rfl⟩
  rintro s q s' q' hstep ⟨hs, hle⟩
  exact ⟨hs.rx_sessionStep hstep, hle.trans (hs.rx_nxt_le hstep)⟩

end Linked

namespace KCPSession

/-- The turns of the receive loop, when the message callbacks make no calls, leave the session
open. -/
theorem drain_closed (fuel : Nat) (s : KCPSession) : (drain fuel [] s).closed = s.closed := by
  induction fuel generalizing s with
  | zero => rfl
  | succ fuel ih =>
      unfold drain
      split
      · rfl
      split
      · rfl
      · refine (ih _).trans ?_
        have hreceive := (s.receive_spec (ikcpPeeksize s.kcp)).2.2.1
        simp only [onReadEvent, List.headD_nil, List.foldl_nil, ite_self]
        split
        · exact hreceive
        · exact hreceive

/-- A datagram that is not refused, with message callbacks that make no calls: after its input
nothing arrives, and the session stays open. -/
theorem processPacketInLoopThread_quiet (arrives : List UInt8 → Prop) {s : KCPSession}
    (hopen : s.closed = false) (packet : KCPReceivedPacket)
    (hinput : 0 ≤ (ikcpInput s.kcp packet.remainingData).1) (peerAddress : InetAddress) :
    SessionSteps arrives (s.setKcp (ikcpInput s.kcp packet.remainingData).2, [])
        (s.processPacketInLoopThread packet peerAddress [], []) ∧
      (s.processPacketInLoopThread packet peerAddress []).closed = false := by
  unfold processPacketInLoopThread
  rw [if_neg (by rw [hopen]; exact Bool.false_ne_true)]
  simp only [if_neg (not_lt.mpr hinput)]
  generalize hfuel : (ikcpInput s.kcp packet.remainingData).2.rcvQueue.length +
    (ikcpInput s.kcp packet.remainingData).2.rcvBuf.length = fuel
  generalize hstart : ({ s.setKcp (ikcpInput s.kcp packet.remainingData).2 with
    peerAddress := peerAddress } : KCPSession) = start
  have hsteps : SessionSteps arrives (s.setKcp (ikcpInput s.kcp packet.remainingData).2, [])
      (drain fuel [] start, []) := by
    rw [← hstart]
    exact .head (.address _ peerAddress) (drain_steps fuel [] _)
  have hclosed : (drain fuel [] start).closed = false := by
    rw [drain_closed, ← hstart]
    exact hopen
  refine ⟨hsteps.trans (log_steps _ _ [] rfl), ?_⟩
  split
  · exact hclosed
  · exact hclosed

/-- A packet arrives at a session whose message callback makes no calls. -/
def redeliver (s : KCPSession) (packet : KCPReceivedPacket) : KCPSession :=
  (SessionTask.packet packet s.peerAddress []).run s

end KCPSession

section Advance

variable {a b : KCPSession} {hist : List IKCPSEG}

/-- Input of a datagram with the number waited for passes over that number. -/
theorem Feeding.input_advances (h : Feeding a b) (hspans : Spans a b hist)
    (hopen : b.closed = false) {body : List UInt8} (hbody : body ∈ a.outputs) {seg : IKCPSEG}
    (hseg : seg ∈ (ikcpSegments body.length b.kcp.conv body).2.1) (hpush : seg.cmd = ikcpCmdPush)
    (hsn : seg.sn = b.kcp.rcvNxt) :
    (ikcpInput b.kcp body).2.receiveSide.nxt ≠ b.kcp.receiveSide.nxt := by
  intro hsame
  have hfed := h.fed.input hbody
  have hframed := h.conv_eq ▸ h.framing.framed body hbody
  have hack := hspans.acknowledged hbody hframed hseg hpush
  have hlinked := hspans.linked.rx_input hbody
  have hwnd : (ikcpInput b.kcp body).2.rcvWnd = b.kcp.rcvWnd :=
    congrArg Config.rcvWnd (ikcpInput_config b.kcp body)
  rcases hlinked.arq.acks_has seg.sn.toNat (Or.inl ⟨_, hack, rfl⟩) with
    hlow | ⟨item, kept, hkept, heq⟩
  · change seg.sn.toNat < (ikcpInput b.kcp body).2.receiveSide.nxt.toNat at hlow
    rw [hsame, hsn] at hlow
    exact absurd hlow (lt_irrefl _)
  · have hkeptsn : kept.sn = (ikcpInput b.kcp body).2.receiveSide.nxt := by
      rw [hsame]
      exact (UInt32.toNat_inj.mp (Prod.mk.inj heq).1).trans hsn
    rcases hfed.moved with hfull | hmissing
    · -- nothing was moved to the queue, so it is not full
      obtain ⟨run, hrun⟩ := ikcpInput_received h.fed.inv.receive body
      have hlt := h.queue_lt hspans.linked hopen
      have hle := hfed.inv.receive.nque_le
      change (ikcpInput b.kcp body).2.receiveSide.queue.length =
        (ikcpInput b.kcp body).2.rcvWnd.toNat at hfull
      change (ikcpInput b.kcp body).2.receiveSide.queue.length ≤
        (ikcpInput b.kcp body).2.rcvWnd.toNat at hle
      have h128 : (ikcpInput b.kcp body).2.rcvWnd.toNat = 128 := by
        rw [hwnd, hspans.wnd_eq]
        rfl
      have hzero : UInt32.ofNat run.length = 0 := by
        have hnxt := hrun.passes.nxt_eq
        rw [hsame] at hnxt
        grind
      have hrunlen : run.length % 2 ^ 32 = 0 := by
        rw [← UInt32.toNat_ofNat', hzero]
        rfl
      change b.kcp.receiveSide.queue.length < 128 at hlt
      rw [hrun.passes.queue_eq, List.length_append, h128] at hfull hle
      omega
    · exact hmissing kept hkept hkeptsn

/-- A datagram that the sender has output, and that carries the number waited for, arrives once
more. -/
theorem Feeding.redeliver (h : Feeding a b) (hspans : Spans a b hist) (hopen : b.closed = false)
    {packet : KCPReceivedPacket} (hbody : packet.remainingData ∈ a.outputs) {seg : IKCPSEG}
    (hseg : seg ∈ (ikcpSegments packet.remainingData.length b.kcp.conv packet.remainingData).2.1)
    (hpush : seg.cmd = ikcpCmdPush) (hsn : seg.sn = b.kcp.rcvNxt) :
    (b.redeliver packet).closed = false ∧ Linked a (b.redeliver packet) hist [] ∧
      b.kcp.rcvNxt.toNat < (b.redeliver packet).kcp.rcvNxt.toNat := by
  have hframed := h.conv_eq ▸ h.framing.framed packet.remainingData hbody
  have hok : 0 ≤ (ikcpInput b.kcp packet.remainingData).1 := by
    rw [ikcpInput_eq, if_neg hframed.not_short]
    simp only [hframed.rc_eq, lt_irrefl, ite_false, le_refl]
  obtain ⟨hrest, hclosed⟩ := KCPSession.processPacketInLoopThread_quiet (· ∈ a.outputs) hopen
    packet hok b.peerAddress
  have hinput := hspans.linked.rx_nxt_le (.input b packet.remainingData hbody)
  obtain ⟨hlinked, hlater⟩ := (hspans.linked.rx_input hbody).rx_steps_nxt_le hrest
  refine ⟨hclosed, hlinked, ?_⟩
  have hne := h.input_advances hspans hopen hbody hseg hpush hsn
  have hlt : b.kcp.receiveSide.nxt.toNat <
      (ikcpInput b.kcp packet.remainingData).2.receiveSide.nxt.toNat :=
    lt_of_le_of_ne hinput fun heq => hne (UInt32.toNat_inj.mp heq.symm)
  exact hlt.trans_le hlater

end Advance

/-- Packets with datagrams of the sender. -/
def Redelivered (a : KCPSession) (packets : List KCPReceivedPacket) : Prop :=
  ∀ packet ∈ packets, packet.remainingData ∈ a.outputs

/-- Datagrams that arrive again keep the sessions joined. -/
theorem Joined.redeliver {sessionId : UInt32} {a b : KCPSession} (h : Joined sessionId a b)
    {packets : List KCPReceivedPacket} (hpackets : Redelivered a packets) :
    Joined sessionId a (packets.foldl KCPSession.redeliver b) :=
  List.foldlRecOn (motive := Joined sessionId a) packets KCPSession.redeliver h
    fun _ hs packet hmem => hs.right (.packet packet _ []) (hpackets packet hmem)

/-- As long as something that was numbered is not passed, one of the datagrams makes progress; so
some of them, in some order, make the receiver pass everything. -/
theorem Joined.catch_up {sessionId : UInt32} {a b : KCPSession} {hist : List IKCPSEG}
    (h : Joined sessionId a b) (hhistory : a.History hist) (hlinked : Linked a b hist [])
    (hopen : b.closed = false) :
    ∃ packets, Redelivered a packets ∧ (packets.foldl KCPSession.redeliver b).closed = false ∧
      Linked a (packets.foldl KCPSession.redeliver b) hist [] ∧
      (packets.foldl KCPSession.redeliver b).kcp.rcvNxt.toNat = hist.length := by
  generalize hmeasure : hist.length - b.kcp.rcvNxt.toNat = todo
  induction todo using Nat.strong_induction_on generalizing b with
  | _ todo ih =>
      have hle : b.kcp.rcvNxt.toNat ≤ hist.length := hlinked.arq.next_le
      by_cases hdone : b.kcp.rcvNxt.toNat = hist.length
      · exact ⟨[], by simp [Redelivered], hopen, hlinked, hdone⟩
      have hfeeding := h.feeding
      obtain ⟨hsnd, hrcv⟩ := h.windows
      have hspans : Spans a b hist :=
        ⟨hlinked, hrcv, hfeeding.length_le hlinked hopen hsnd hrcv⟩
      -- the number waited for was output in some datagram
      obtain ⟨seg, hwire, hpush, hsn⟩ := hhistory.output b.kcp.rcvNxt.toNat (by omega)
      obtain ⟨body, hbody, hseg⟩ := List.mem_flatMap.mp hwire
      obtain ⟨packet, rfl⟩ : ∃ packet : KCPReceivedPacket, packet.remainingData = body :=
        ⟨{ data := body }, rfl⟩
      rw [← hfeeding.conv_eq] at hseg
      obtain ⟨hclosed, hnext, hlt⟩ := hfeeding.redeliver hspans hopen hbody hseg hpush
        (UInt32.toNat_inj.mp hsn)
      have hnextle : (b.redeliver packet).kcp.rcvNxt.toNat ≤ hist.length := hnext.arq.next_le
      have harrived : Joined sessionId a (b.redeliver packet) :=
        h.right (.packet packet b.peerAddress []) hbody
      obtain ⟨packets, hpackets, hend⟩ := ih _ (by omega) harrived hnext hclosed rfl
      exact ⟨packet :: packets, List.forall_mem_cons.mpr ⟨hbody, hpackets⟩, hend⟩

/-- The queue holds the last of the numbers that were passed. -/
theorem Feeding.passed {a b : KCPSession} {hist pending} (h : Feeding a b)
    (hlinked : Linked a b hist pending) :
    ∃ read, hist.take b.kcp.rcvNxt.toNat = read ++ b.kcp.rcvQueue.map IKCPSEG.core := by
  obtain ⟨first, hqueued, hnxt⟩ := h.fed.contiguous
  change Consecutive first b.kcp.rcvQueue at hqueued
  change b.kcp.rcvNxt = first + UInt32.ofNat b.kcp.rcvQueue.length at hnxt
  have hitem : ∀ seg ∈ b.kcp.rcvQueue, hist[seg.sn.toNat]? = some seg.core := by
    intro seg hseg
    obtain ⟨hpush, hwire⟩ := h.fed.sent seg (List.mem_append_left _ hseg)
    rw [h.conv_eq] at hwire
    exact hlinked.arq.wire_hist _ _ ⟨seg, hwire, hpush, rfl⟩
  cases hqueue : b.kcp.rcvQueue with
  | nil => exact ⟨_, (List.append_nil _).symm⟩
  | cons seg rest =>
      have hbound := hlinked.bound
      have hle : b.kcp.rcvQueue.length ≤ b.kcp.rcvWnd.toNat := h.fed.inv.receive.nque_le
      have hwnd := hlinked.rcvWnd_le
      rw [hqueue] at hqueued hnxt hitem hle
      -- the first number in the queue is one of the history
      have hfirst : first.toNat < hist.length := by
        have hhead := hitem seg List.mem_cons_self
        rw [hqueued.1] at hhead
        exact (List.getElem?_eq_some_iff.mp hhead).1
      have hnat : b.kcp.rcvNxt.toNat = first.toNat + (seg :: rest).length := by
        rw [hnxt, UInt32.toNat_add, UInt32.toNat_ofNat',
          Nat.mod_eq_of_lt (by omega : (seg :: rest).length < 2 ^ 32), Nat.mod_eq_of_lt (by omega)]
      rw [hnat]
      exact ⟨_, hqueued.take_eq (by omega) hitem⟩

/-- A receiver that has passed everything holds no part of a message when the sender has numbered
whole messages only. -/
theorem Feeding.queue_nil {a b : KCPSession} {hist : List IKCPSEG} (h : Feeding a b)
    (hhistory : a.History hist) (hlinked : Linked a b hist []) (hopen : b.closed = false)
    (hall : b.kcp.rcvNxt.toNat = hist.length) (hwhole : a.kcp.sndQueue = []) :
    b.kcp.rcvQueue = [] := by
  have hpeek := h.readOut.resolve_left (by rw [hopen]; exact Bool.false_ne_true)
  have hcut := not_complete_of_ikcpPeeksize h.fed.inv.receive hlinked.message_short hpeek
  have hlt := h.queue_lt hlinked hopen
  -- the queue is the end of the history
  have htail : Countdown (b.kcp.rcvQueue.map IKCPSEG.frg) := by
    obtain ⟨read, hread⟩ := h.passed hlinked
    have hcount := hhistory.countdown
    rw [hall, List.take_length] at hread
    rw [hwhole, List.append_nil, hread, List.map_append, List.map_map] at hcount
    exact hcount.of_append
  cases hqueue : b.kcp.rcvQueue with
  | nil => rfl
  | cons seg rest =>
      rw [hqueue] at hcut htail hlt
      have hshort := Countdown.lt_length htail
      have hcount := UInt32.lt_iff_toNat_lt.mp (not_not.mp (not_or.mp hcut).2)
      rw [List.length_cons, List.length_map] at hshort
      rw [List.length_cons] at hcount hlt
      have hfrg := hshort.trans hlt
      rw [UInt32.toNat_ofNat', Nat.mod_eq_of_lt (by omega), UInt32.toNat_add, UInt32.toNat_one]
        at hcount
      omega

/-- In every state of a joined pair with open ends, some of the datagrams that the sender has output
make the receiver hand out everything that was written, up to what the sender has not numbered yet
and the beginning of a message whose rest is among that. -/
theorem delivery_recoverable {sessionId : UInt32} {a b : KCPSession} (h : Joined sessionId a b)
    (hassigned : a.assigned < 2 ^ 30) (hwrites : ∀ data ∈ a.writes, data.length < 2 ^ 31)
    (hopenA : a.closed = false) (hopenB : b.closed = false) :
    ∃ packets, Redelivered a packets ∧
      (packets.foldl KCPSession.redeliver b).closed = false ∧
      a.written = (packets.foldl KCPSession.redeliver b).delivered ++
        payload (packets.foldl KCPSession.redeliver b).kcp.rcvQueue ++ payload a.kcp.sndQueue ∧
      (a.kcp.sndQueue = [] → (packets.foldl KCPSession.redeliver b).kcp.rcvQueue = []) := by
  obtain ⟨hist, hlinked⟩ := h.linked hassigned
  obtain ⟨hist', hhistory⟩ := h.historied.resolve_left (not_le.mpr hassigned)
  obtain rfl := hhistory.eq_of_linked hlinked
  obtain ⟨packets, hpackets, hclosed, hend, hall⟩ := h.catch_up hhistory hlinked hopenB
  have hfeeding := (h.redeliver hpackets).feeding
  refine ⟨packets, hpackets, hclosed, ?_, hfeeding.queue_nil hhistory hend hclosed hall⟩
  obtain ⟨lost, hwritten, hlost⟩ := hend.written_eq hwrites
  have hdelivered := hend.delivered_eq
  rw [hall, List.take_length] at hdelivered
  rw [hwritten, hlost hopenA, hdelivered, List.append_nil, List.append_nil]

/-- The datagram of the greeting is lost, and the bytes are not. -/
theorem delivery_recoverable_greeting :
    ∃ packets, Redelivered greeter packets ∧
      (packets.foldl KCPSession.redeliver (freshSession ⟨"10.0.0.1:9000"⟩)).delivered =
        [1, 2, 3] := by
  obtain ⟨packets, hpackets, _, hall, hwhole⟩ := delivery_recoverable joined_greeter
    (by decide +kernel) (by decide +kernel) (by decide +kernel) (by decide +kernel)
  have hqueue : greeter.kcp.sndQueue = [] := by decide +kernel
  have hwritten : greeter.written = [1, 2, 3] := by decide +kernel
  rw [hwhole hqueue, hqueue, hwritten, payload, List.flatMap_nil, List.append_nil,
    List.append_nil] at hall
  exact ⟨packets, hpackets, hall.symm⟩

end CodeBlocks.Kcp
