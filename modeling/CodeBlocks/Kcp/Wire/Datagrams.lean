import CodeBlocks.Kcp.Invariant.Reachable
import CodeBlocks.Kcp.Wire.Packets

/-!
# What a flush puts into its datagrams

The segments of one flush are packed in order: acknowledgements, probes, then
the segments of `snd_buf` that are due. A datagram is handed out only when the
next segment would pass the MTU, so every datagram holds whole segments, at
least one of them, and the peer's segment grammar reads them all back.
-/

namespace CodeBlocks.Kcp

open Serial

/-- A packing of `segs` in progress: closed groups, and the open group in the buffer. -/
structure Packed (room mtu : Nat) (b : FlushBuf) (segs : List IKCPSEG)
    (groups : List (List IKCPSEG)) (last : List IKCPSEG) : Prop where
  sent_eq : b.sent = groups.map fun group => group.flatMap IKCPSEG.wire
  body_eq : b.body = last.flatMap IKCPSEG.wire
  flatten_eq : groups.flatten ++ last = segs
  closed_ne : ∀ group ∈ groups, group ≠ []
  closed_le : ∀ group ∈ groups, room + (group.flatMap IKCPSEG.wire).length ≤ mtu
  last_le : room + b.body.length ≤ mtu

/-- A group of segments takes a head at least. -/
theorem length_flatMap_wire {group : List IKCPSEG} (h : group ≠ []) :
    ikcpOverhead ≤ (group.flatMap IKCPSEG.wire).length := by
  obtain ⟨seg, rest, rfl⟩ := List.exists_cons_of_ne_nil h
  rw [List.flatMap_cons, List.length_append, IKCPSEG.length_wire]
  omega

/-- Closing the open group keeps the packing. -/
theorem Packed.output {kcp : IKCPCB} {b : FlushBuf} {segs : List IKCPSEG}
    {groups : List (List IKCPSEG)} {last : List IKCPSEG}
    (h : Packed kcp.headRoom.toNat kcp.mtu.toNat b segs groups last) (hne : last ≠ []) :
    Packed kcp.headRoom.toNat kcp.mtu.toNat (b.output kcp) segs (groups ++ [last]) [] := by
  have hlen := length_flatMap_wire hne
  have hsize : b.size kcp ≠ 0 := by
    rw [FlushBuf.size, h.body_eq]
    simp only [ikcpOverhead] at hlen
    omega
  have hle := h.last_le
  constructor
  · simp only [FlushBuf.output, if_neg hsize, h.sent_eq, h.body_eq, List.map_append,
      List.map_singleton]
  · rfl
  · rw [List.append_nil, List.flatten_append, List.flatten_singleton, h.flatten_eq]
  · intro group hg
    rcases List.mem_append.mp hg with hg | hg
    · exact h.closed_ne group hg
    · rwa [List.mem_singleton.mp hg]
  · intro group hg
    rcases List.mem_append.mp hg with hg | hg
    · exact h.closed_le group hg
    · rw [List.mem_singleton.mp hg, ← h.body_eq]
      exact hle
  · change kcp.headRoom.toNat + 0 ≤ kcp.mtu.toNat
    omega

/-- One more segment goes into the open group, which fits it. -/
private theorem Packed.add {room mtu : Nat} {b : FlushBuf} {segs : List IKCPSEG}
    {groups : List (List IKCPSEG)} {last : List IKCPSEG} (h : Packed room mtu b segs groups last)
    {seg : IKCPSEG} (hfit : room + b.body.length + (ikcpOverhead + seg.data.length) ≤ mtu) :
    Packed room mtu { b with body := b.body ++ seg.wire } (segs ++ [seg]) groups
      (last ++ [seg]) := by
  constructor
  · exact h.sent_eq
  · rw [List.flatMap_append, ← h.body_eq, List.flatMap_singleton]
  · rw [← List.append_assoc, h.flatten_eq]
  · exact h.closed_ne
  · exact h.closed_le
  · rw [List.length_append, IKCPSEG.length_wire]
    omega

/-- One packing site. -/
theorem Packed.put {kcp : IKCPCB} {b : FlushBuf} {segs : List IKCPSEG}
    {groups : List (List IKCPSEG)} {last : List IKCPSEG}
    (h : Packed kcp.headRoom.toNat kcp.mtu.toNat b segs groups last) {seg : IKCPSEG}
    (hfit : kcp.headRoom.toNat + ikcpOverhead + seg.data.length ≤ kcp.mtu.toNat) :
    ∃ groups last, Packed kcp.headRoom.toNat kcp.mtu.toNat (b.put kcp seg) (segs ++ [seg])
      groups last := by
  unfold FlushBuf.put
  by_cases hover : b.size kcp + (ikcpOverhead + seg.data.length) > kcp.mtu.toNat
  · have hne : last ≠ [] := by
      rintro rfl
      rw [FlushBuf.size, h.body_eq] at hover
      simp only [List.flatMap_nil, List.length_nil] at hover
      omega
    simp only [hover, ite_true]
    refine ⟨_, _, (h.output hne).add ?_⟩
    change kcp.headRoom.toNat + 0 + _ ≤ _
    omega
  · simp only [hover, ite_false]
    refine ⟨_, _, h.add ?_⟩
    unfold FlushBuf.size at hover
    omega

/-- Putting more segments keeps the buffer packed. -/
theorem Packed.foldl {kcp : IKCPCB} (more : List IKCPSEG)
    (hfit : ∀ seg ∈ more,
      kcp.headRoom.toNat + ikcpOverhead + seg.data.length ≤ kcp.mtu.toNat)
    {b : FlushBuf} {segs : List IKCPSEG} {groups : List (List IKCPSEG)} {last : List IKCPSEG}
    (h : Packed kcp.headRoom.toNat kcp.mtu.toNat b segs groups last) :
    ∃ groups last, Packed kcp.headRoom.toNat kcp.mtu.toNat (more.foldl (FlushBuf.put kcp) b)
      (segs ++ more) groups last := by
  induction more generalizing b segs groups last with
  | nil => exact ⟨groups, last, by rwa [List.append_nil]⟩
  | cons seg more ih =>
      obtain ⟨groups', last', h'⟩ := h.put (hfit seg List.mem_cons_self)
      have hrest := ih (fun s hs => hfit s (List.mem_cons_of_mem _ hs)) h'
      rwa [List.append_assoc, List.singleton_append] at hrest

/-- The last datagram of a flush: it is handed out unless it is empty. -/
theorem Packed.finish {kcp : IKCPCB} {b : FlushBuf} {segs : List IKCPSEG}
    {groups : List (List IKCPSEG)} {last : List IKCPSEG}
    (h : Packed kcp.headRoom.toNat kcp.mtu.toNat b segs groups last) :
    ∃ groups, Packed kcp.headRoom.toNat kcp.mtu.toNat
      (if b.size kcp > kcp.headRoom.toNat then b.output kcp else b) segs groups [] := by
  by_cases hne : last = []
  · subst hne
    have hsize : ¬ b.size kcp > kcp.headRoom.toNat := by
      rw [FlushBuf.size, h.body_eq, List.flatMap_nil, List.length_nil]
      omega
    exact ⟨groups, by rwa [if_neg hsize]⟩
  · have hlen := length_flatMap_wire hne
    have hsize : b.size kcp > kcp.headRoom.toNat := by
      rw [FlushBuf.size, h.body_eq]
      simp only [ikcpOverhead] at hlen
      omega
    exact ⟨_, by rw [if_pos hsize]; exact h.output hne⟩

/-- The segments that one flush encodes, in order. -/
def ikcpFlushSegs (kcp : IKCPCB) (current : UInt32) : List IKCPSEG :=
  let acks := ikcpAckSegs kcp
  let probed := ikcpProbeTimer { kcp with current := current, acklist := [] }
  let filled := (ikcpFlushHead kcp current).1
  acks ++ ikcpProbeSegs probed acks probed.probe ++
    ikcpDueSegs filled current (ikcpResent filled) (ikcpRtomin filled) (ikcpWndUnused kcp)
      filled.sndBuf

/-- Only the settings decide when the buffer is put out. -/
theorem FlushBuf.output_congr {k k' : IKCPCB} (h : k.config = k'.config) (b : FlushBuf) :
    b.size k = b.size k' ∧ b.output k = b.output k' := by
  have hroom : k.headRoom = k'.headRoom := congrArg Config.headRoom h
  have hsize : b.size k = b.size k' := by rw [FlushBuf.size, FlushBuf.size, hroom]
  exact ⟨hsize, by rw [FlushBuf.output, FlushBuf.output, hsize]⟩

theorem FlushBuf.put_congr {k k' : IKCPCB} (h : k.config = k'.config) :
    FlushBuf.put k = FlushBuf.put k' := by
  have hmtu : k.mtu = k'.mtu := congrArg Config.mtu h
  funext b seg
  obtain ⟨hsize, houtput⟩ := FlushBuf.output_congr h b
  rw [FlushBuf.put, FlushBuf.put, hsize, houtput, hmtu]

/-- Moving the segments changes no setting. -/
theorem ikcpFlushHead_config (kcp : IKCPCB) (current : UInt32) :
    (ikcpFlushHead kcp current).1.config = kcp.config := by
  rw [ikcpFlushHead_kcp, ikcpFillLoop_config, (ikcpProbed_sides kcp current).2.2]

/-- The buffer after the acknowledgements and probes of a flush. -/
theorem ikcpFlushHead_buf (kcp : IKCPCB) (current : UInt32) :
    (ikcpFlushHead kcp current).2 =
      (ikcpAckSegs kcp ++ ikcpProbeSegs (ikcpProbeTimer { kcp with
          current := current, acklist := [] }) (ikcpAckSegs kcp)
        (ikcpProbeTimer { kcp with current := current, acklist := [] }).probe).foldl
        (FlushBuf.put kcp) {} := by
  have hprobe := FlushBuf.put_congr (ikcpProbeTimer_sides
    { kcp with current := current, acklist := [] }).2.2
  rw [List.foldl_append]
  change List.foldl (FlushBuf.put (ikcpProbeTimer { kcp with
    current := current, acklist := [] })) _ _ = _
  rw [hprobe]
  rfl

/-- The datagrams of a flush are its segments, packed. -/
theorem ikcpFlush_sent_eq (kcp : IKCPCB) (current : UInt32) :
    (ikcpFlush kcp current).sent =
      (if ((ikcpFlushSegs kcp current).foldl (FlushBuf.put kcp) {}).size kcp >
          kcp.headRoom.toNat then
        ((ikcpFlushSegs kcp current).foldl (FlushBuf.put kcp) {}).output kcp
      else (ikcpFlushSegs kcp current).foldl (FlushBuf.put kcp) {}).sent := by
  have hconfig := ikcpFlushHead_config kcp current
  have hroom : (ikcpFlushHead kcp current).1.headRoom = kcp.headRoom :=
    congrArg Config.headRoom hconfig
  have hbuf (st : FlushState) (hst : st.buf = (ikcpFlushHead kcp current).2) :
      (ikcpFlushLoop (ikcpFlushHead kcp current).1 current
        (ikcpResent (ikcpFlushHead kcp current).1) (ikcpRtomin (ikcpFlushHead kcp current).1)
        (ikcpWndUnused kcp) (ikcpFlushHead kcp current).1.sndBuf st).2.buf =
        (ikcpFlushSegs kcp current).foldl (FlushBuf.put kcp) {} := by
    rw [(ikcpFlushLoop_spec _ _ _ _ _ _ _).2, FlushBuf.put_congr hconfig, hst,
      ikcpFlushHead_buf, ← List.foldl_append]
    rfl
  simp only [ikcpFlush]
  obtain ⟨hsize, houtput⟩ := FlushBuf.output_congr hconfig
    ((ikcpFlushSegs kcp current).foldl (FlushBuf.put kcp) {})
  rw [hbuf _ rfl, hsize, houtput, hroom]

/-- Acknowledgements and probes carry no data and announce `rcv_nxt`. -/
structure Bare (kcp : IKCPCB) (seg : IKCPSEG) : Prop where
  conv_eq : seg.conv = kcp.conv
  frg_eq : seg.frg = 0
  data_eq : seg.data = []
  una_eq : seg.una = kcp.rcvNxt

/-- A bare segment can be sent. -/
theorem Bare.sendable {kcp : IKCPCB} {seg : IKCPSEG} (h : Bare kcp seg)
    (hcmd : seg.cmd = ikcpCmdPush ∨ seg.cmd = ikcpCmdAck ∨ seg.cmd = ikcpCmdWask ∨
      seg.cmd = ikcpCmdWins) : seg.Sendable kcp.conv :=
  ⟨h.conv_eq, hcmd, by rw [h.frg_eq]; decide, by rw [h.data_eq]; decide⟩

/-- An acknowledgement is bare. -/
theorem bare_ack {kcp : IKCPCB} {seg : IKCPSEG} (h : seg ∈ ikcpAckSegs kcp) :
    Bare kcp seg ∧ seg.cmd = ikcpCmdAck := by
  obtain ⟨entry, _, rfl⟩ := List.mem_map.mp h
  exact ⟨⟨rfl, rfl, rfl, rfl⟩, rfl⟩

/-- So is a probe. -/
theorem bare_probe {kcp : IKCPCB} {current : UInt32} {probe : UInt32} {seg : IKCPSEG}
    (h : seg ∈ ikcpProbeSegs (ikcpProbeTimer { kcp with current := current, acklist := [] })
      (ikcpAckSegs kcp) probe) :
    Bare kcp seg ∧ (seg.cmd = ikcpCmdWask ∨ seg.cmd = ikcpCmdWins) := by
  obtain ⟨_, hr, hc⟩ := ikcpProbeTimer_sides { kcp with current := current, acklist := [] }
  have hbase : Bare kcp ((ikcpAckSegs kcp).getLast?.getD (ikcpFlushSeg
      (ikcpProbeTimer { kcp with current := current, acklist := [] }))) := by
    cases hlast : (ikcpAckSegs kcp).getLast? with
    | none => exact ⟨congrArg Config.conv hc, rfl, rfl, congrArg ReceiveSide.nxt hr⟩
    | some ack => exact (bare_ack (List.mem_of_getLast? hlast)).1
  unfold ikcpProbeSegs at h
  rcases List.mem_append.mp h with h | h
  · split at h
    · rw [List.mem_singleton.mp h]
      exact ⟨⟨hbase.conv_eq, hbase.frg_eq, hbase.data_eq, hbase.una_eq⟩, Or.inl rfl⟩
    · simp at h
  · split at h
    · rw [List.mem_singleton.mp h]
      exact ⟨⟨hbase.conv_eq, hbase.frg_eq, hbase.data_eq, hbase.una_eq⟩, Or.inr rfl⟩
    · simp at h

/-- A due segment is one of `snd_buf`, with other timers and stamps. -/
theorem ikcpDueSegs_core (kcp : IKCPCB) (current resent rtomin wnd : UInt32)
    (buf : List IKCPSEG) :
    (ikcpDueSegs kcp current resent rtomin wnd buf).map IKCPSEG.core =
      (buf.filter (ikcpNeedsend kcp current resent)).map IKCPSEG.core := by
  rw [ikcpDueSegs, List.map_map]
  refine List.map_congr_left fun seg _ => ?_
  exact ikcpRearm_core kcp current rtomin seg (ikcpSendReason kcp current resent seg)

/-- What is due comes from `snd_buf`. -/
theorem mem_ikcpDueSegs {kcp : IKCPCB} {current resent rtomin wnd : UInt32}
    {buf : List IKCPSEG} {seg : IKCPSEG}
    (h : seg ∈ ikcpDueSegs kcp current resent rtomin wnd buf) :
    seg.core ∈ buf.map IKCPSEG.core := by
  have hmem := List.mem_map_of_mem (f := IKCPSEG.core) h
  rw [ikcpDueSegs_core] at hmem
  exact (List.filter_sublist.map IKCPSEG.core).subset hmem

/-- Moving the segments keeps the sending half consistent. -/
theorem ikcpFlushHead_inv {kcp : IKCPCB} (h : kcp.sendSide.Inv) (current : UInt32) :
    (ikcpFlushHead kcp current).1.sendSide.Inv := by
  obtain ⟨_, _, _, heq, hinv⟩ := ikcpFlush_fill h current
  rw [← ikcpFlush_sendSide, heq]
  exact hinv

/-- Everything a flush encodes survives the wire and fits behind the head room. -/
theorem ikcpFlushSegs_sendable {kcp : IKCPCB} (h : kcp.Inv) (current : UInt32) {seg : IKCPSEG}
    (hseg : seg ∈ ikcpFlushSegs kcp current) :
    seg.Sendable kcp.conv ∧ seg.data.length ≤ kcp.mss.toNat := by
  rcases List.mem_append.mp hseg with hseg | hdue
  · rcases List.mem_append.mp hseg with hack | hprobe
    · obtain ⟨hbare, hcmd⟩ := bare_ack hack
      exact ⟨hbare.sendable (Or.inr (Or.inl hcmd)), by rw [hbare.data_eq]; exact Nat.zero_le _⟩
    · obtain ⟨hbare, hcmd⟩ := bare_probe hprobe
      exact ⟨hbare.sendable (Or.inr (Or.inr hcmd)), by rw [hbare.data_eq]; exact Nat.zero_le _⟩
  · have hcore := mem_ikcpDueSegs hdue
    have hinv := ikcpFlushHead_inv h.send current
    have hconfig := ikcpFlushHead_config kcp current
    obtain ⟨hconv, hcmd⟩ := hinv.pushed seg.core hcore
    have hq := hinv.buffered seg.core hcore
    have hle : seg.data.length ≤ kcp.mss.toNat := by
      have hmss : (ikcpFlushHead kcp current).1.mss = kcp.mss := congrArg Config.mss hconfig
      rw [← hmss]
      exact hq.data_le
    have hfrg : seg.frg.toNat < 128 := hq.frg_lt
    have hsize := h.size_eq
    have hmtu := h.mtu_lt
    exact ⟨⟨hconv.trans (congrArg Config.conv hconfig), Or.inl hcmd, by omega, by omega⟩, hle⟩

/-- The datagrams of a flush partition its segments; none is empty or too long, and the peer can
read them all. -/
theorem ikcpFlush_groups {kcp : IKCPCB} (h : kcp.Inv) (current : UInt32) :
    ∃ groups : List (List IKCPSEG),
      (ikcpFlush kcp current).sent = groups.map (fun group => group.flatMap IKCPSEG.wire) ∧
      groups.flatten = ikcpFlushSegs kcp current ∧
      (∀ group ∈ groups, ikcpOverhead ≤ (group.flatMap IKCPSEG.wire).length ∧
        kcp.headRoom.toNat + (group.flatMap IKCPSEG.wire).length ≤ kcp.mtu.toNat) ∧
      ∀ group ∈ groups, ∀ seg ∈ group, seg.Sendable kcp.conv := by
  have hsize := h.size_eq
  have hstart : Packed kcp.headRoom.toNat kcp.mtu.toNat {} [] [] [] :=
    ⟨rfl, rfl, rfl, by simp, by simp, by simp only [List.length_nil]; omega⟩
  obtain ⟨_, _, hpacked⟩ := hstart.foldl (ikcpFlushSegs kcp current) (by
    intro seg hseg
    have := (ikcpFlushSegs_sendable h current hseg).2
    omega)
  obtain ⟨groups, hfinal⟩ := hpacked.finish
  have hflat : groups.flatten = ikcpFlushSegs kcp current := by simpa using hfinal.flatten_eq
  refine ⟨groups, ?_, hflat, ?_, ?_⟩
  · rw [ikcpFlush_sent_eq, hfinal.sent_eq]
  · intro group hg
    exact ⟨length_flatMap_wire (hfinal.closed_ne group hg), hfinal.closed_le group hg⟩
  · intro group hg seg hseg
    exact (ikcpFlushSegs_sendable h current (hflat ▸ List.mem_flatten_of_mem hg hseg)).1

/-- The peer's grammar reads a datagram back: its own segments, nothing left. -/
theorem ikcpSegments_group {conv : UInt32} {group : List IKCPSEG}
    (h : ∀ seg ∈ group, seg.Sendable conv) :
    ikcpSegments (group.flatMap IKCPSEG.wire).length conv (group.flatMap IKCPSEG.wire) =
      (0, group.map IKCPSEG.received, []) := by
  apply ikcpSegments_wire group h _
  clear h
  induction group with
  | nil => simp
  | cons seg group ih =>
      rw [List.flatMap_cons, List.length_append, IKCPSEG.length_wire, List.length_cons]
      simp only [ikcpOverhead]
      omega

/-- The flush of a session's control block and the peer that decodes it. A
datagram is `room ++ body`, with the head room in whatever state earlier use of
the buffer left it. -/
structure FlushDecodes (adler32 : UInt32 → List UInt8 → UInt32) (sessionId : UInt32)
    (kcp : IKCPCB) (current : UInt32) : Prop where
  length_bounds : ∀ body ∈ (ikcpFlush kcp current).sent, ∀ room : List UInt8,
    room.length = kPublicHeaderLength →
      kPublicHeaderLength + ikcpOverhead ≤ (room ++ body).length ∧
        (room ++ body).length ≤ kMaxPacketSize
  header_read : ∀ body ∈ (ikcpFlush kcp current).sent, ∀ room : List UInt8,
    room.length = kPublicHeaderLength →
      ∃ written header packet,
        KCPPendingSendPacket.writePublicHeader adler32 (room ++ body)
          KCPReceivedPacketType.data.code sessionId = .ok written ∧
        written.length = (room ++ body).length ∧
        KCPReceivedPacket.readPublicHeader adler32 { data := written } = (.ok header, packet) ∧
        header.packetType = KCPReceivedPacketType.data.code ∧ header.sessionId = sessionId ∧
        packet.remainingData = body
  read_to_end : ∀ body ∈ (ikcpFlush kcp current).sent,
    (ikcpSegments body.length sessionId body).1 = 0 ∧
      (ikcpSegments body.length sessionId body).2.2 = []
  segments_eq : ∃ acks probes pushes : List IKCPSEG,
    ((ikcpFlush kcp current).sent.flatMap fun body =>
      (ikcpSegments body.length sessionId body).2.1) = acks ++ probes ++ pushes ∧
    (acks.map fun seg => (seg.cmd, seg.sn, seg.ts)) =
      kcp.acklist.map (fun (sn, ts) => (ikcpCmdAck, sn, ts)) ∧
    probes.map IKCPSEG.cmd =
      (if (ikcpProbeTimer { kcp with current := current }).probe &&& ikcpAskSend ≠ 0 then
        [ikcpCmdWask] else []) ++
      (if (ikcpProbeTimer { kcp with current := current }).probe &&& ikcpAskTell ≠ 0 then
        [ikcpCmdWins] else []) ∧
    (pushes.map fun seg => (seg.cmd, seg.frg, seg.sn, seg.data)) =
      ((ikcpFlushHead kcp current).1.sndBuf.filter
        (ikcpNeedsend (ikcpFlushHead kcp current).1 current
          (ikcpResent (ikcpFlushHead kcp current).1))).map
        (fun seg => (ikcpCmdPush, seg.frg, seg.sn, seg.data)) ∧
    pushes.Pairwise fun a b => dist kcp.sndUna a.sn < dist kcp.sndUna b.sn

/-- The segments that the peer reads from all datagrams of a flush together. -/
theorem ikcpFlush_segments {kcp : IKCPCB} (h : kcp.Inv) (current : UInt32) :
    ((ikcpFlush kcp current).sent.flatMap fun body =>
      (ikcpSegments body.length kcp.conv body).2.1) =
      (ikcpFlushSegs kcp current).map IKCPSEG.received := by
  obtain ⟨groups, hsent, hflat, _, hsendable⟩ := ikcpFlush_groups h current
  have hgroup : ∀ group ∈ groups, (ikcpSegments (group.flatMap IKCPSEG.wire).length kcp.conv
      (group.flatMap IKCPSEG.wire)).2.1 = group.map IKCPSEG.received := by
    intro group hg
    rw [ikcpSegments_group (hsendable group hg)]
  rw [hsent, List.flatMap_map, ← hflat, List.map_flatten, List.flatMap_def]
  exact congrArg List.flatten (List.map_congr_left hgroup)

/-- Every datagram of a flush has room for its header, and the peer reads it to its end. -/
theorem ikcpFlush_framed {kcp : IKCPCB} (h : kcp.Inv) (current : UInt32) {body : List UInt8}
    (hbody : body ∈ (ikcpFlush kcp current).sent) :
    ikcpOverhead ≤ body.length ∧ kcp.headRoom.toNat + body.length ≤ kcp.mtu.toNat ∧
      (ikcpSegments body.length kcp.conv body).1 = 0 ∧
      (ikcpSegments body.length kcp.conv body).2.2 = [] := by
  obtain ⟨groups, hsent, _, hlen, hsendable⟩ := ikcpFlush_groups h current
  rw [hsent] at hbody
  obtain ⟨group, hg, rfl⟩ := List.mem_map.mp hbody
  rw [ikcpSegments_group (hsendable group hg)]
  exact ⟨(hlen group hg).1, (hlen group hg).2, rfl, rfl⟩

/-- The head room takes a header, behind which the peer finds the bytes of the flush. -/
theorem readPublicHeader_headRoom (adler32 : UInt32 → List UInt8 → UInt32)
    {room : List UInt8} (hroom : room.length = kPublicHeaderLength) (body : List UInt8)
    (packetType : UInt8) (sessionId : UInt32) :
    ∃ written header packet,
      KCPPendingSendPacket.writePublicHeader adler32 (room ++ body) packetType sessionId =
        .ok written ∧
      written.length = (room ++ body).length ∧
      KCPReceivedPacket.readPublicHeader adler32 { data := written } = (.ok header, packet) ∧
      header.packetType = packetType ∧ header.sessionId = sessionId ∧
      packet.remainingData = body := by
  have hlong : kPublicHeaderLength ≤ (room ++ body).length := by
    rw [List.length_append, hroom]
    omega
  obtain ⟨written, header, packet, hw, hl, hread, htype, hid, hrest⟩ :=
    readPublicHeader_writePublicHeader adler32 hlong packetType sessionId
  rw [← hroom, List.drop_left] at hrest
  exact ⟨written, header, packet, hw, hl, hread, htype, hid, hrest⟩

private theorem ikcpProbeTimer_probe (kcp : IKCPCB) (current : UInt32) :
    (ikcpProbeTimer { kcp with current := current, acklist := [] }).probe =
      (ikcpProbeTimer { kcp with current := current }).probe := by
  simp only [ikcpProbeTimer]
  repeat' split
  all_goals rfl

private theorem map_probes (kcp : IKCPCB) (acks : List IKCPSEG) (probe : UInt32) :
    ((ikcpProbeSegs kcp acks probe).map IKCPSEG.received).map IKCPSEG.cmd =
      (if probe &&& ikcpAskSend ≠ 0 then [ikcpCmdWask] else []) ++
        (if probe &&& ikcpAskTell ≠ 0 then [ikcpCmdWins] else []) := by
  rw [ikcpProbeSegs, List.map_append, List.map_append]
  congr 1
  · split <;> rfl
  · split <;> rfl

/-- The pushed segments of a flush, as the peer reads them. -/
private theorem map_due (kcp : IKCPCB) (h : kcp.sendSide.Inv)
    (current resent rtomin wnd : UInt32) :
    (((ikcpDueSegs kcp current resent rtomin wnd kcp.sndBuf).map IKCPSEG.received).map
        fun seg => (seg.cmd, seg.frg, seg.sn, seg.data)) =
      (kcp.sndBuf.filter (ikcpNeedsend kcp current resent)).map
        (fun seg => (ikcpCmdPush, seg.frg, seg.sn, seg.data)) := by
  have hcore := congrArg (List.map fun seg : IKCPSEG => (seg.cmd, seg.frg, seg.sn, seg.data))
    (ikcpDueSegs_core kcp current resent rtomin wnd kcp.sndBuf)
  rw [List.map_map, List.map_map] at hcore
  rw [List.map_map]
  refine hcore.trans (List.map_congr_left fun seg hseg => ?_)
  have hcmd : seg.cmd = ikcpCmdPush :=
    (h.pushed seg.core (List.mem_map_of_mem (List.mem_of_mem_filter hseg))).2
  simp only [Function.comp, IKCPSEG.core_cmd, IKCPSEG.core_frg, IKCPSEG.core_sn,
    IKCPSEG.core_data, hcmd]

private theorem pairwise_due (kcp : IKCPCB) (h : kcp.sendSide.Inv)
    (current resent rtomin wnd : UInt32) :
    ((ikcpDueSegs kcp current resent rtomin wnd kcp.sndBuf).map IKCPSEG.received).Pairwise
      fun a b => dist kcp.sndUna a.sn < dist kcp.sndUna b.sn := by
  have hasc := h.within.ascending
  simp only [IKCPCB.sendSide, map_core_sn] at hasc
  have hsns : ((ikcpDueSegs kcp current resent rtomin wnd kcp.sndBuf).map IKCPSEG.received).map
      IKCPSEG.sn = (kcp.sndBuf.filter (ikcpNeedsend kcp current resent)).map IKCPSEG.sn := by
    have hcore := congrArg (List.map IKCPSEG.sn)
      (ikcpDueSegs_core kcp current resent rtomin wnd kcp.sndBuf)
    rw [map_core_sn, map_core_sn] at hcore
    rw [List.map_map]
    exact hcore
  have hsub := hasc.sublist (List.filter_sublist (p := ikcpNeedsend kcp current resent).map
    IKCPSEG.sn)
  rw [← hsns, List.pairwise_map] at hsub
  exact hsub

/-- What a flush sends is what the peer decodes. -/
theorem flush_datagrams_decode (adler32 : UInt32 → List UInt8 → UInt32) {sessionId : UInt32}
    {params : Params} (hmtu : params.mtu = kDefaultMTUSize) (hroom : params.headRoom = 9)
    {kcp : IKCPCB} (h : kcp.Reachable sessionId params) (current : UInt32) :
    FlushDecodes adler32 sessionId kcp current := by
  have hinv := h.inv
  obtain ⟨kcp₀, h₀, hconfig⟩ := h.config
  have hinit := initializeControl_spec h₀
  have hconv : kcp.conv = sessionId :=
    (congrArg Config.conv hconfig).trans (congrArg SendSide.conv hinit.sendSide_eq)
  have hmtu' : kcp.mtu = 1400 := by
    rw [show kcp.mtu = kcp₀.mtu from congrArg Config.mtu hconfig, hinit.mtu_eq, hmtu]
    rfl
  have hroom' : kcp.headRoom = 9 := by
    rw [show kcp.headRoom = kcp₀.headRoom from congrArg Config.headRoom hconfig,
      hinit.headRoom_eq, hroom]
    rfl
  have hfilled := ikcpFlushHead_inv hinv.send current
  constructor
  · intro body hbody room hr
    obtain ⟨hge, hle, _⟩ := ikcpFlush_framed hinv current hbody
    rw [hmtu', hroom'] at hle
    rw [List.length_append, hr]
    exact ⟨Nat.add_le_add_left hge _, hle⟩
  · intro body _ room hr
    exact readPublicHeader_headRoom adler32 hr body KCPReceivedPacketType.data.code sessionId
  · intro body hbody
    rw [← hconv]
    exact (ikcpFlush_framed hinv current hbody).2.2
  · have hsegs := ikcpFlush_segments hinv current
    rw [hconv, ikcpFlushSegs, List.map_append, List.map_append] at hsegs
    refine ⟨_, _, _, hsegs, ?_, ?_, map_due _ hfilled current _ _ _, ?_⟩
    · rw [ikcpAckSegs, List.map_map, List.map_map]
      rfl
    · rw [map_probes, ikcpProbeTimer_probe]
    · have huna : (ikcpFlushHead kcp current).1.sndUna = kcp.sndUna := by
        obtain ⟨_, _, _, heq, _⟩ := ikcpFlush_fill hinv.send current
        exact congrArg SendSide.una ((ikcpFlush_sendSide kcp current).symm.trans heq)
      rw [← huna]
      exact pairwise_due _ hfilled current _ _ _

/-- A session with a written message and a received segment: its flush holds an
acknowledgement and a pushed segment. -/
theorem flush_datagrams_decode_fast :
    ∃ kcp : IKCPCB, kcp.Reachable 7 { kFastModeKCPParams with headRoom := 9 } ∧
      kcp.acklist.length = 1 ∧ (ikcpFlush kcp 40).sent.length = 1 ∧
      FlushDecodes Zlib.adler32 7 kcp 40 := by
  have hr : IKCPCB.Reachable 7 { kFastModeKCPParams with headRoom := 9 }
      ([ControlCall.send [1, 2, 3],
        .input ({ conv := 7, cmd := ikcpCmdPush, wnd := 128, data := [9] } : IKCPSEG).wire].foldl
        ControlCall.run
        ((initializeControl 7 { kFastModeKCPParams with headRoom := 9 }).getD (ikcpCreate 0))) :=
    ⟨_, _, rfl, rfl⟩
  exact ⟨_, hr, by decide +kernel, by decide +kernel,
    flush_datagrams_decode Zlib.adler32 rfl rfl hr 40⟩

end CodeBlocks.Kcp
