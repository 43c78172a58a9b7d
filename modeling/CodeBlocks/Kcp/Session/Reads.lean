import CodeBlocks.Core.Run
import CodeBlocks.Kcp.Invariant.Reachable
import CodeBlocks.Kcp.Session.Drain

/-!
# What a DATA packet can do to a session

The segment parser and the receive loop end on every input, the parser stays
inside the data, and the two loops over the fragments of a message agree. What
can fail is the assertion that a message has bytes: a segment may be empty, and
so may be the message that it ends.
-/

namespace CodeBlocks.Kcp

open Bytes

/-! ## The parser -/

/-- The stretches of the data, as offset and length, that the loop of `ikcp_input` reads: a segment
head, and the payload of a segment that it accepts. -/
def ikcpInputReads : Nat → UInt32 → Nat → List UInt8 → List (Nat × Nat)
  | 0, _, _, _ => []
  | fuel + 1, conv, offset, data =>
    if data.length < ikcpOverhead then []
    else
      (offset, ikcpOverhead) ::
        match ikcpReadSeg conv data with
        | .error _ => []
        | .ok (_, rest) =>
          let len := (ikcpDecodeHead data).1.len.toNat
          (offset + ikcpOverhead, len) ::
            ikcpInputReads fuel conv (offset + ikcpOverhead + len) rest

/-- The header reader leaves the bytes after the header. -/
theorem ikcpDecodeHead_snd {data : List UInt8} (h : ikcpOverhead ≤ data.length) :
    (ikcpDecodeHead data).2 = data.drop ikcpOverhead := by
  have h24 : 24 ≤ data.length := h
  simp (disch := grind) only [ikcpDecodeHead, get32_snd, get8_snd, get16_snd, List.drop_drop]

/-- An accepted segment takes its head and its payload off the data. -/
theorem ikcpReadSeg_length {conv : UInt32} {data rest : List UInt8} {seg : IKCPSEG}
    (h : ikcpReadSeg conv data = .ok (seg, rest)) (hhead : ikcpOverhead ≤ data.length) :
    seg.data.length = (ikcpDecodeHead data).1.len.toNat ∧
      data.length = ikcpOverhead + (ikcpDecodeHead data).1.len.toNat + rest.length := by
  have hsnd := ikcpDecodeHead_snd hhead
  simp only [ikcpReadSeg] at h
  split at h
  · cases h
  split at h
  · cases h
  rename_i hlen
  split at h
  · cases h
  rw [Except.ok.injEq, Prod.mk.injEq] at h
  obtain ⟨rfl, rfl⟩ := h
  rw [hsnd] at hlen ⊢
  have hle := not_lt.mp (not_or.mp hlen).1
  rw [List.length_drop] at hle
  simp only [List.length_take, List.length_drop]
  omega

/-- The parser reads inside the data only. -/
theorem ikcpInputReads_le (fuel : Nat) (conv : UInt32) (offset : Nat) (data : List UInt8) :
    ∀ read ∈ ikcpInputReads fuel conv offset data, read.1 + read.2 ≤ offset + data.length := by
  induction fuel generalizing offset data with
  | zero => simp [ikcpInputReads]
  | succ fuel ih =>
      intro read hmem
      unfold ikcpInputReads at hmem
      split at hmem
      · cases hmem
      rename_i hhead
      have hle := not_lt.mp hhead
      cases hread : ikcpReadSeg conv data with
      | error rc =>
          simp only [hread, List.mem_singleton] at hmem
          subst hmem
          exact Nat.add_le_add_left hle offset
      | ok pair =>
          obtain ⟨seg, rest⟩ := pair
          obtain ⟨_, hlen⟩ := ikcpReadSeg_length hread hle
          simp only [hread, List.mem_cons] at hmem
          rcases hmem with rfl | rfl | hmem
          · exact Nat.add_le_add_left hle offset
          · simp only
            omega
          · have hrest := ih _ rest read hmem
            omega

/-- The turns of the parser that the model allows are enough. -/
theorem ikcpSegments_fuel {fuel fuel' : Nat} (conv : UInt32) {data : List UInt8}
    (h : data.length ≤ fuel) (h' : data.length ≤ fuel') :
    ikcpSegments fuel conv data = ikcpSegments fuel' conv data := by
  have hnil : ∀ n, ikcpSegments n conv [] = (0, [], []) := by
    intro n
    cases n <;> rfl
  induction fuel generalizing fuel' data with
  | zero =>
      obtain rfl := List.eq_nil_of_length_eq_zero (Nat.le_zero.mp h)
      rw [hnil, hnil]
  | succ fuel ih =>
      cases fuel' with
      | zero =>
          obtain rfl := List.eq_nil_of_length_eq_zero (Nat.le_zero.mp h')
          rw [hnil, hnil]
      | succ fuel' =>
          unfold ikcpSegments
          split
          · rfl
          rename_i hhead
          cases hread : ikcpReadSeg conv data with
          | error rc => rfl
          | ok pair =>
              obtain ⟨seg, rest⟩ := pair
              have hlen := (ikcpReadSeg_length hread (not_lt.mp hhead)).2
              have hover : 0 < ikcpOverhead := by decide
              have hrest := @ih fuel' rest (by omega) (by omega)
              simp only [hrest]

/-- One round per byte is enough: more fuel changes nothing. -/
theorem ikcpInputLoop_fuel {fuel : Nat} (st : InputState) {data : List UInt8}
    (h : data.length ≤ fuel) : ikcpInputLoop fuel st data = ikcpInputLoop data.length st data := by
  rw [ikcpInputLoop_eq, ikcpInputLoop_eq, ikcpSegments_fuel st.kcp.conv h le_rfl]

/-! ## Reading messages -/

theorem toInt32_len (seg : IKCPSEG) : seg.len.toInt32.toInt = ikcpIntLen seg.data := rfl

/-- What can be read has the size of the first message. -/
theorem ikcpPeeksize_eq {kcp : IKCPCB} (h : ¬ ikcpPeeksize kcp < 0) :
    ikcpPeeksize kcp = ikcpIntLen (payload (ikcpMessage kcp.rcvQueue).1) := by
  unfold ikcpPeeksize at h ⊢
  cases hqueue : kcp.rcvQueue with
  | nil => simp [hqueue] at h
  | cons seg rest =>
      simp only [hqueue] at h ⊢
      by_cases hfrg : seg.frg = 0
      · rw [if_pos hfrg, toInt32_len, ikcpMessage, if_pos hfrg]
        simp [payload]
      · rw [if_neg hfrg] at h ⊢
        split
        · rename_i hshort
          simp [hshort] at h
        · rfl

/-- Reading as much as can be read gives the whole first message, so that the assertion of
`ikcp_recv` holds. -/
theorem ikcpRecv_peeksize {kcp : IKCPCB} (h : ¬ ikcpPeeksize kcp < 0) :
    (ikcpRecv kcp (Int32.ofInt (ikcpPeeksize kcp))).asserted = true ∧
      (ikcpRecv kcp (Int32.ofInt (ikcpPeeksize kcp))).rc = ikcpPeeksize kcp := by
  have hqueue : kcp.rcvQueue ≠ [] := fun hnil => h (ikcpPeeksize_nil hnil)
  have hlen := KCPSession.ikcpPeeksize_nonneg h
  have hroom := KCPSession.toInt_ikcpPeeksize kcp
  rw [ikcpRecv, if_neg hqueue, if_neg h, if_neg hlen, if_neg (by rw [hroom]; exact lt_irrefl _)]
  simp only [← ikcpPeeksize_eq h, decide_true, and_self]

/-- The receiving half without the acknowledgements that are due. -/
def IKCPCB.readSide (kcp : IKCPCB) : ReceiveSide := { kcp.receiveSide with acks := [] }

/-- What leaves the receiving half leaves its part without the acknowledgements. -/
theorem readSide_of_receiveSide {kcp kcp' : IKCPCB} (h : kcp'.receiveSide = kcp.receiveSide) :
    kcp'.readSide = kcp.readSide := by
  unfold IKCPCB.readSide
  rw [h]

/-- A flush touches the acknowledgements of that half only. -/
theorem ikcpFlush_readSide (kcp : IKCPCB) (current : UInt32) :
    (ikcpFlush kcp current).kcp.readSide = kcp.readSide := by
  unfold IKCPCB.readSide
  rw [ikcpFlush_receiveSide]

/-- Reading and asking for the size look at this half only. -/
theorem ikcpPeeksize_congr {kcp kcp' : IKCPCB} (h : kcp'.readSide = kcp.readSide) :
    ikcpPeeksize kcp' = ikcpPeeksize kcp := by
  have hqueue : kcp'.rcvQueue = kcp.rcvQueue := congrArg ReceiveSide.queue h
  have hnque : kcp'.nrcvQue = kcp.nrcvQue := congrArg ReceiveSide.nque h
  unfold ikcpPeeksize
  rw [hqueue, hnque]

/-- So does moving segments into the receive queue. -/
theorem ikcpMoveLoop_congr (buf : List IKCPSEG) {kcp kcp' : IKCPCB}
    (h : kcp'.readSide = kcp.readSide) :
    (ikcpMoveLoop buf kcp').readSide = (ikcpMoveLoop buf kcp).readSide := by
  induction buf generalizing kcp kcp' with
  | nil =>
      simp only [IKCPCB.readSide, IKCPCB.receiveSide, ReceiveSide.mk.injEq] at h
      simp only [ikcpMoveLoop, IKCPCB.readSide, IKCPCB.receiveSide, h]
  | cons seg buf ih =>
      have hfields := h
      simp only [IKCPCB.readSide, IKCPCB.receiveSide, ReceiveSide.mk.injEq] at hfields
      unfold ikcpMoveLoop
      rw [hfields.1, hfields.2.2.2.1, hfields.2.1]
      split
      · apply ih
        simp only [IKCPCB.readSide, IKCPCB.receiveSide, hfields]
      · simp only [IKCPCB.readSide, IKCPCB.receiveSide, hfields]

/-- What `ikcp_recv` leaves when it reads a message. -/
theorem ikcpRecv_kcp {kcp : IKCPCB} (h : ¬ ikcpPeeksize kcp < 0) :
    (ikcpRecv kcp (Int32.ofInt (ikcpPeeksize kcp))).kcp.receiveSide =
      (ikcpMove (ikcpDeliver kcp)).receiveSide := by
  have hlen := KCPSession.ikcpPeeksize_nonneg h
  rcases ikcpRecv_cases kcp (Int32.ofInt (ikcpPeeksize kcp)) with
    ⟨hneg, _⟩ | ⟨_, _, recover, heq⟩
  · rw [(ikcpRecv_peeksize h).2] at hneg
    exact absurd hneg h
  · rw [heq, ikcpRecover_receiveSide, if_neg hlen]

/-- So does reading one message. -/
theorem ikcpRecv_congr {kcp kcp' : IKCPCB} (h : kcp'.readSide = kcp.readSide)
    (hpeek : ¬ ikcpPeeksize kcp < 0) :
    (ikcpRecv kcp' (Int32.ofInt (ikcpPeeksize kcp'))).kcp.readSide =
      (ikcpRecv kcp (Int32.ofInt (ikcpPeeksize kcp))).kcp.readSide := by
  have hpeek' : ¬ ikcpPeeksize kcp' < 0 := by rwa [ikcpPeeksize_congr h]
  rw [readSide_of_receiveSide (ikcpRecv_kcp hpeek), readSide_of_receiveSide (ikcpRecv_kcp hpeek')]
  have hfields := h
  simp only [IKCPCB.readSide, IKCPCB.receiveSide, ReceiveSide.mk.injEq] at hfields
  have hdeliver : (ikcpDeliver kcp').readSide = (ikcpDeliver kcp).readSide := by
    simp only [ikcpDeliver, IKCPCB.readSide, IKCPCB.receiveSide, hfields]
  have hbuf : (ikcpDeliver kcp').rcvBuf = (ikcpDeliver kcp).rcvBuf :=
    congrArg ReceiveSide.buf hdeliver
  unfold ikcpMove
  rw [hbuf]
  exact ikcpMoveLoop_congr _ hdeliver

/-- The sizes of the messages that can be read one after another. -/
def ikcpReadSizes : Nat → IKCPCB → List Int
  | 0, _ => []
  | fuel + 1, kcp =>
    if ikcpPeeksize kcp < 0 then []
    else
      ikcpPeeksize kcp ::
        ikcpReadSizes fuel (ikcpRecv kcp (Int32.ofInt (ikcpPeeksize kcp))).kcp

/-- So the sizes that the receive loop sees depend on this half only. -/
theorem ikcpReadSizes_congr (fuel : Nat) {kcp kcp' : IKCPCB}
    (h : kcp'.readSide = kcp.readSide) :
    ikcpReadSizes fuel kcp' = ikcpReadSizes fuel kcp := by
  induction fuel generalizing kcp kcp' with
  | zero => rfl
  | succ fuel ih =>
      unfold ikcpReadSizes
      by_cases hpeek : ikcpPeeksize kcp < 0
      · rw [if_pos hpeek, if_pos (by rwa [ikcpPeeksize_congr h])]
      · rw [if_neg hpeek, if_neg (by rwa [ikcpPeeksize_congr h]), ih (ikcpRecv_congr h hpeek),
          ikcpPeeksize_congr h]

/-- The loop ends at the first negative size. -/
theorem ikcpReadSizes_nonneg (fuel : Nat) (kcp : IKCPCB) :
    ∀ size ∈ ikcpReadSizes fuel kcp, 0 ≤ size := by
  induction fuel generalizing kcp with
  | zero => simp [ikcpReadSizes]
  | succ fuel ih =>
      unfold ikcpReadSizes
      split
      · simp
      · rename_i hpeek
        exact List.forall_mem_cons.mpr ⟨not_lt.mp hpeek, ih _⟩

/-! ## The receive loop -/

namespace KCPSession

/-- The results of `ikcp_recv` in the receive loop. -/
def drainReads : Nat → List (List UserCall) → KCPSession → List RecvResult
  | 0, _, _ => []
  | fuel + 1, calls, s =>
    if s.closed then []
    else if ikcpPeeksize s.kcp < 0 then []
    else
      ikcpRecv s.kcp (Int32.ofInt (ikcpPeeksize s.kcp)) ::
        drainReads fuel calls.tail (s.onReadEvent (ikcpPeeksize s.kcp) (calls.headD []))

/-- The results of `ikcp_recv` in `ProcessPacketInLoopThread`. -/
def packetReads (s : KCPSession) (packet : KCPReceivedPacket) (peerAddress : InetAddress)
    (calls : List (List UserCall)) : List RecvResult :=
  if s.closed then []
  else
    let (result, kcp) := ikcpInput s.kcp packet.remainingData
    if result < 0 then []
    else
      drainReads (kcp.rcvQueue.length + kcp.rcvBuf.length) calls
        { s.setKcp kcp with peerAddress := peerAddress }

section ReadSide

theorem flushTxQueue_kcp (s : KCPSession) : s.flushTxQueue.kcp = s.kcp := by
  unfold flushTxQueue
  split <;> rfl

theorem onConnectionEvent_kcp (s : KCPSession) (connected : Bool) :
    (s.onConnectionEvent connected).kcp = s.kcp := by
  unfold onConnectionEvent
  split <;> rfl

/-- Flushing and sending what was put out leaves the half that is read. -/
theorem flushed_readSide (s : KCPSession) (currentMs : UInt32) :
    (s.flush currentMs).flushTxQueue.kcp.readSide = s.kcp.readSide := by
  rw [flushTxQueue_kcp]
  exact ikcpFlush_readSide s.kcp currentMs

/-- So does closing. -/
theorem close_readSide (s : KCPSession) (lastFlush : Bool) (currentMs : UInt32) :
    (s.close lastFlush currentMs).kcp.readSide = s.kcp.readSide := by
  unfold close
  split
  · rfl
  · rw [onConnectionEvent_kcp]
    split
    · exact flushed_readSide { s with closed := true } currentMs
    · rfl

/-- So does the part of a `Write` that goes through the window. -/
theorem writeWindow_readSide (s : KCPSession) (data : List UInt8) (currentMs : UInt32) :
    (s.writeWindow data currentMs).1.kcp.readSide = s.kcp.readSide := by
  have hsend (bytes : List UInt8) : (ikcpSend s.kcp bytes).2.readSide = s.kcp.readSide :=
    readSide_of_receiveSide (ikcpWrite_receiveSide s.kcp bytes false)
  have hflush (c : Prop) [Decidable c] (s' : KCPSession) :
      (if c then (s'.flush currentMs).flushTxQueue else s').kcp.readSide = s'.kcp.readSide := by
    split
    · exact flushed_readSide s' currentMs
    · rfl
  have hlog (c : Prop) [Decidable c] (s' : KCPSession) (event : SessionEvent) :
      (if c then s'.log event else s').kcp.readSide = s'.kcp.readSide := by
    split <;> rfl
  unfold writeWindow
  split
  · rfl
  simp only
  generalize min (ikcpAvailableWndInBytes s.kcp).toNat data.length = bytes
  split
  · split
    · simp only [hlog, hflush]
      exact hsend _
    · exact hsend _
  · rfl

/-- So does the part that is appended. -/
theorem writeRemaining_readSide (s : KCPSession) (data : List UInt8) (reach : Bool) :
    (s.writeRemaining data reach).kcp.readSide = s.kcp.readSide := by
  have happend : (ikcpAppend s.kcp data).2.readSide = s.kcp.readSide :=
    readSide_of_receiveSide (ikcpWrite_receiveSide s.kcp data true)
  unfold writeRemaining
  split
  · simp only
    split
    · split
      · exact happend
      · exact happend
    · exact happend
  · rfl

/-- So does any call of the user. -/
theorem call_readSide (s : KCPSession) (userCall : UserCall) :
    (s.call userCall).kcp.readSide = s.kcp.readSide := by
  cases userCall with
  | close lastFlush currentMs => exact close_readSide s lastFlush currentMs
  | write data currentMs =>
      unfold call writeInLoopThread
      simp only
      split
      · rfl
      · rw [writeRemaining_readSide, writeWindow_readSide]
        rfl

/-- So does a callback. -/
theorem calls_readSide (s : KCPSession) (calls : List UserCall) :
    (calls.foldl call s).kcp.readSide = s.kcp.readSide := by
  induction calls generalizing s with
  | nil => rfl
  | cons userCall calls ih => rw [List.foldl_cons, ih, call_readSide]

/-- The message callback leaves the receiving half alone. -/
theorem onReadEvent_readSide (s : KCPSession) (size : Int) (calls : List UserCall) :
    (s.onReadEvent size calls).kcp.readSide =
      (ikcpRecv s.kcp (Int32.ofInt size)).kcp.readSide := by
  rw [← (s.receive_spec size).1]
  unfold onReadEvent
  simp only
  split
  · split
    · exact calls_readSide _ calls
    · rfl
  · split
    · exact calls_readSide _ calls
    · rfl

end ReadSide

/-- Whatever the callbacks do, the loop reads the first of the messages that can be read, and the
assertion of `ikcp_recv` holds. -/
theorem drainReads_sizes (fuel : Nat) (calls : List (List UserCall)) (s : KCPSession) :
    (drainReads fuel calls s).map RecvResult.rc <+: ikcpReadSizes fuel s.kcp ∧
      ∀ result ∈ drainReads fuel calls s, result.asserted = true := by
  induction fuel generalizing calls s with
  | zero => simp [drainReads]
  | succ fuel ih =>
      unfold drainReads ikcpReadSizes
      split
      · simp
      split
      · simp
      rename_i hpeek
      obtain ⟨hasserted, hrc⟩ := ikcpRecv_peeksize hpeek
      obtain ⟨hsizes, hall⟩ := ih calls.tail
        (s.onReadEvent (ikcpPeeksize s.kcp) (calls.headD []))
      rw [ikcpReadSizes_congr fuel (onReadEvent_readSide s _ _)] at hsizes
      refine ⟨?_, List.forall_mem_cons.mpr ⟨hasserted, hall⟩⟩
      rw [List.map_cons, hrc]
      exact List.cons_prefix_cons.mpr ⟨rfl, hsizes⟩

/-- Reading a message does not close the session by itself. -/
theorem onReadEvent_closed_nil (s : KCPSession) (size : Int) :
    (s.onReadEvent size []).closed = s.closed := by
  rw [← (s.receive_spec size).2.2.1]
  unfold onReadEvent
  simp only [List.foldl_nil, ite_self]
  split <;> rfl

/-- Without calls of the callbacks it reads all of them. -/
theorem drainReads_nil (fuel : Nat) {s : KCPSession} (hopen : s.closed = false) :
    (drainReads fuel [] s).map RecvResult.rc = ikcpReadSizes fuel s.kcp := by
  induction fuel generalizing s with
  | zero => rfl
  | succ fuel ih =>
      unfold drainReads ikcpReadSizes
      rw [if_neg (by simp [hopen])]
      split
      · rfl
      rename_i hpeek
      have hrest := ih ((s.onReadEvent_closed_nil (ikcpPeeksize s.kcp)).trans hopen)
      rw [ikcpReadSizes_congr fuel (onReadEvent_readSide s _ _)] at hrest
      rw [List.map_cons, (ikcpRecv_peeksize hpeek).2]
      exact congrArg _ hrest

/-- A packet that neither hangs nor aborts the session, whatever the callbacks do: the parser ends
and stays inside the data, the receive loop ends, and both assertions hold at every message. -/
structure Survives (s : KCPSession) (packet : KCPReceivedPacket) : Prop where
  parses : ∀ fuel, packet.remainingData.length ≤ fuel →
    ikcpInputLoop fuel ⟨s.kcp, none⟩ packet.remainingData =
      ikcpInputLoop packet.remainingData.length ⟨s.kcp, none⟩ packet.remainingData
  inside : ∀ read ∈ ikcpInputReads packet.remainingData.length s.kcp.conv 0 packet.remainingData,
    read.1 + read.2 ≤ packet.remainingData.length
  ends : ∀ peerAddress calls, 0 ≤ (ikcpInput s.kcp packet.remainingData).1 →
    (s.processPacketInLoopThread packet peerAddress calls).closed = true ∨
      ikcpPeeksize (s.processPacketInLoopThread packet peerAddress calls).kcp < 0
  asserts : ∀ peerAddress calls, ∀ result ∈ s.packetReads packet peerAddress calls,
    result.asserted = true ∧ result.rc > 0

/-- A packet is survived exactly when it is refused or no message that the loop reads is empty. -/
theorem survives_iff {s : KCPSession} (hopen : s.closed = false) (packet : KCPReceivedPacket) :
    s.Survives packet ↔ (ikcpInput s.kcp packet.remainingData).1 < 0 ∨
      0 ∉ ikcpReadSizes (ikcpInput s.kcp packet.remainingData).2.unread
        (ikcpInput s.kcp packet.remainingData).2 := by
  have hreads : ∀ peerAddress calls, ¬ (ikcpInput s.kcp packet.remainingData).1 < 0 →
      s.packetReads packet peerAddress calls =
        drainReads (ikcpInput s.kcp packet.remainingData).2.unread calls
          { s.setKcp (ikcpInput s.kcp packet.remainingData).2 with
            peerAddress := peerAddress } := by
    intro peerAddress calls hok
    unfold packetReads
    rw [if_neg (by simp [hopen])]
    simp only [hok, ite_false]
    rfl
  constructor
  · intro h
    by_cases hok : (ikcpInput s.kcp packet.remainingData).1 < 0
    · exact Or.inl hok
    refine Or.inr fun hempty => ?_
    have hasserts := h.asserts s.peerAddress []
    rw [hreads _ _ hok] at hasserts
    have hsizes := drainReads_nil (ikcpInput s.kcp packet.remainingData).2.unread
      (s := { s.setKcp (ikcpInput s.kcp packet.remainingData).2 with
        peerAddress := s.peerAddress }) hopen
    obtain ⟨result, hmem, hrc⟩ := List.mem_map.mp (hsizes ▸ hempty)
    have hpos := (hasserts result hmem).2
    omega
  · intro h
    refine ⟨fun fuel hfuel => ikcpInputLoop_fuel _ hfuel, ?_, ?_, ?_⟩
    · simpa using ikcpInputReads_le packet.remainingData.length s.kcp.conv 0 packet.remainingData
    · intro peerAddress calls hok
      exact s.processPacketInLoopThread_done packet peerAddress calls hok
    · intro peerAddress calls result hmem
      by_cases hok : (ikcpInput s.kcp packet.remainingData).1 < 0
      · simp [packetReads, hopen, hok] at hmem
      rw [hreads _ _ hok] at hmem
      obtain ⟨hbegins, hasserted⟩ := drainReads_sizes
        (ikcpInput s.kcp packet.remainingData).2.unread calls
          { s.setKcp (ikcpInput s.kcp packet.remainingData).2 with peerAddress := peerAddress }
      have hsize := hbegins.subset (List.mem_map_of_mem hmem)
      have hnonneg := ikcpReadSizes_nonneg _ _ _ hsize
      have hne : result.rc ≠ 0 := by
        intro hzero
        rw [hzero] at hsize
        exact (h.resolve_left hok) hsize
      exact ⟨hasserted result hmem, by omega⟩

end KCPSession

end CodeBlocks.Kcp
