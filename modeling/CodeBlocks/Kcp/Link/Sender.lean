import CodeBlocks.Kcp.Link.Receiver

/-!
# Steps of the sending side

A flush numbers queued segments in order and outputs copies of buffered ones; an
acknowledgement from the peer removes only what the peer has. The bytes written
are those numbered, those queued, and those of a write that is not finished.
-/

namespace CodeBlocks.Kcp

open Serial

theorem consecutive_numbered (conv nxt : UInt32) (moved : List IKCPSEG) :
    Consecutive nxt (numbered conv nxt moved) := by
  induction moved generalizing nxt with
  | nil => trivial
  | cons seg moved ih => exact ⟨rfl, ih (nxt + 1)⟩

/-- Every number behind the history is the number of a segment that got one. -/
theorem exists_numbered (conv : UInt32) {moved hist : List IKCPSEG} {n : Nat}
    (hle : hist.length ≤ n) (hlt : n < hist.length + moved.length)
    (hw : hist.length + moved.length < 2 ^ 32) :
    ∃ seg ∈ numbered conv (UInt32.ofNat hist.length) moved, seg.sn.toNat = n := by
  have hstart : (UInt32.ofNat hist.length).toNat = hist.length := by
    rw [UInt32.toNat_ofNat', Nat.mod_eq_of_lt (by omega)]
  have hrange := (consecutive_numbered conv (UInt32.ofNat hist.length) moved).toNat_eq
    (by rw [length_numbered, hstart]; exact hw)
  rw [hstart, length_numbered] at hrange
  apply List.mem_map.mp
  rw [hrange, List.mem_range'_1]
  exact ⟨hle, hlt⟩

section Linked

variable {a a' b : KCPSession} {hist hist' : List IKCPSEG} {pending pending' : List UInt8}

/-- What a change at the sender has to establish. -/
theorem Linked.tx_step (h : Linked a b hist pending) (hinv : a'.kcp.Inv)
    (hconfig : a'.kcp.config = a.kcp.config) (hbound : hist'.length < 2 ^ 30)
    (hshort : ∀ seg ∈ hist', seg.data.length ≤ kMaxPacketSize)
    (hassigned : a'.assigned = hist'.length) (hnxt : a'.kcp.sndNxt = UInt32.ofNat hist'.length)
    (hbuffered : ∀ seg ∈ a'.kcp.sendSide.buf, hist'[seg.sn.toNat]? = some seg)
    (hstep : Arq.Step
      (arqState a.kcp.conv hist a.kcp.sendSide a.outputs b.kcp.receiveSide b.outputs)
      (arqState a.kcp.conv hist' a'.kcp.sendSide a'.outputs b.kcp.receiveSide b.outputs))
    (hwritten : (∀ data ∈ a'.writes, data.length < 2 ^ 31) → ∃ lost,
      a'.written = payload hist' ++ payload a'.kcp.sndQueue ++ lost ++ pending' ∧
        (a'.closed = false → lost = []))
    (hpending : pending' = [] ∨ ∃ data ∈ a'.writes, pending'.length ≤ data.length) :
    Linked a' b hist' pending' where
  tx := hinv
  rx := h.rx
  conv_eq := h.conv_eq.trans (congrArg Config.conv hconfig).symm
  message_set := h.message_set
  mss_le := by
    have hmss : a'.kcp.mss = a.kcp.mss := congrArg Config.mss hconfig
    rw [hmss]
    exact h.mss_le
  rcvWnd_le := h.rcvWnd_le
  bound := hbound
  short := hshort
  queue_short := h.queue_short
  assigned_eq := hassigned
  nxt_eq := hnxt
  buffered := hbuffered
  arq := by
    have hconv : a'.kcp.conv = a.kcp.conv := congrArg Config.conv hconfig
    rw [hconv]
    exact hstep.inv h.arq
  delivered_eq := by
    obtain ⟨new, rfl⟩ : hist <+: hist' := hstep.hist
    have hle : b.kcp.rcvNxt.toNat ≤ hist.length := h.arq.next_le
    rw [List.take_append_of_le_length hle]
    exact h.delivered_eq
  written_eq := hwritten
  pending_le := hpending

/-- A change at the sender that its sending half does not notice. -/
theorem Linked.tx_same (h : Linked a b hist pending) (hinv : a'.kcp.Inv)
    (hconfig : a'.kcp.config = a.kcp.config) (hside : a'.kcp.sendSide = a.kcp.sendSide)
    (hout : a'.outputs = a.outputs) (hwrites : a'.writes = a.writes)
    (hassigned : a'.assigned = a.assigned) (hclosed : a'.closed = false → a.closed = false) :
    Linked a' b hist pending := by
  have hqueue : a'.kcp.sndQueue = a.kcp.sndQueue := congrArg SendSide.queue hside
  have hnxt : a'.kcp.sndNxt = a.kcp.sndNxt := congrArg SendSide.nxt hside
  refine h.tx_step hinv hconfig h.bound h.short (hassigned.trans h.assigned_eq)
    (hnxt.trans h.nxt_eq) (hside ▸ h.buffered) ?_ ?_ (hwrites ▸ h.pending_le)
  · rw [hside, hout]
    exact Arq.Step.refl _
  · intro hw
    rw [hwrites] at hw
    obtain ⟨lost, heq, hlost⟩ := h.written_eq hw
    refine ⟨lost, ?_, fun ho => hlost (hclosed ho)⟩
    rw [KCPSession.written, hwrites, hqueue]
    exact heq

/-- A write begins: its bytes are pending. -/
theorem Linked.tx_written (h : Linked a b hist []) (data : List UInt8) :
    Linked (a.log (.written data)) b hist data := by
  have htrace := a.log_written_trace data
  have hwrites : (a.log (.written data)).writes = a.writes ++ [data] :=
    congrArg KCPSession.Trace.writes htrace
  have hout : (a.log (.written data)).outputs = a.outputs :=
    congrArg KCPSession.Trace.outputs htrace
  refine h.tx_step h.tx rfl h.bound h.short
    ((congrArg KCPSession.Trace.assigned htrace).trans h.assigned_eq) h.nxt_eq h.buffered ?_ ?_ ?_
  · rw [hout]
    exact Arq.Step.refl _
  · intro hw
    rw [hwrites] at hw
    obtain ⟨lost, heq, hlost⟩ := h.written_eq fun d hd => hw d (List.mem_append_left _ hd)
    refine ⟨lost, ?_, hlost⟩
    rw [List.append_nil] at heq
    rw [KCPSession.written, hwrites, List.flatten_append, List.flatten_singleton]
    exact congrArg (· ++ data) heq
  · exact Or.inr ⟨data, by rw [hwrites]; simp, le_rfl⟩

/-- Pending bytes are as short as the write they belong to. -/
theorem Linked.pending_lt (h : Linked a b hist pending)
    (hw : ∀ data ∈ a.writes, data.length < 2 ^ 31) : pending.length < 2 ^ 31 := by
  rcases h.pending_le with rfl | ⟨data, hd, hle⟩
  · simp
  · exact hle.trans_lt (hw data hd)

/-- Bytes move from a pending write to the queue. -/
theorem Linked.tx_enqueue {taken rest : List UInt8} (h : Linked a b hist (taken ++ rest))
    {alwaysStream : Bool} (hopen : a.closed = false)
    (hok : (ikcpWrite a.kcp taken alwaysStream).1 = 0) :
    Linked (a.setKcp (ikcpWrite a.kcp taken alwaysStream).2) b hist rest := by
  have hinv := ikcpWrite_inv h.tx.mss_pos h.tx.send taken alwaysStream
  have hconfig := ikcpWrite_config a.kcp taken alwaysStream
  have hreceive := ikcpWrite_receiveSide a.kcp taken alwaysStream
  rcases ikcpWrite_cases h.tx.mss_pos taken alwaysStream with ⟨hneg, _⟩ | ⟨queue, added, hw, heq⟩
  · omega
  rw [heq] at hinv hconfig hreceive ⊢
  refine h.tx_step (h.tx.of_config hinv (hreceive ▸ h.tx.receive) hconfig) hconfig h.bound h.short
    h.assigned_eq h.nxt_eq h.buffered (Arq.Step.refl _) ?_ ?_
  · intro hlen
    obtain ⟨lost, hwritten, hlost⟩ := h.written_eq hlen
    have hlt := h.pending_lt hlen
    rw [List.length_append] at hlt
    have hpayload := hw.payload_eq
    rw [ikcpIntLen_eq (by omega), Int.toNat_natCast, List.take_length] at hpayload
    refine ⟨[], ?_, fun _ => rfl⟩
    change a.written = payload hist ++ payload (queue ++ added) ++ [] ++ rest
    rw [hwritten, hlost hopen, hpayload]
    simp only [List.append_nil, List.append_assoc]
  · rcases h.pending_le with hnil | ⟨data, hd, hle⟩
    · exact Or.inl (List.append_eq_nil_iff.mp hnil).2
    · rw [List.length_append] at hle
      exact Or.inr ⟨data, hd, by omega⟩

/-- The rest of a write is given up by a closed session only, or for its length. -/
theorem Linked.tx_discard (h : Linked a b hist pending)
    (hlost : a.closed = true ∨ 2 ^ 31 ≤ pending.length) : Linked a b hist [] := by
  refine h.tx_step h.tx rfl h.bound h.short h.assigned_eq h.nxt_eq h.buffered (Arq.Step.refl _) ?_
    (Or.inl rfl)
  intro hw
  obtain ⟨lost, heq, _⟩ := h.written_eq hw
  have hlt := h.pending_lt hw
  rcases hlost with hclosed | hlong
  · refine ⟨lost ++ pending, ?_, fun hopen => ?_⟩
    · rw [heq, List.append_nil, List.append_assoc _ lost]
    · rw [hclosed] at hopen
      cases hopen
  · omega

/-- What a flush does at the sender: the segments of `moved` leave the queue and
stand, numbered, at the end of the buffer. -/
structure Numbers (a : KCPSession) (currentMs : UInt32) (moved rest : List IKCPSEG) : Prop where
  queue_eq : a.kcp.sndQueue = moved ++ rest
  side_eq : (a.flush currentMs).kcp.sendSide = a.kcp.sendSide.fill moved rest
  inv : (a.flush currentMs).kcp.sendSide.Inv
  assigned_eq : (a.flush currentMs).assigned = a.assigned + moved.length

theorem flush_numbers {a : KCPSession} (h : a.kcp.Inv) (currentMs : UInt32) :
    ∃ moved rest, Numbers a currentMs moved rest := by
  obtain ⟨moved, rest, hqueue, hfill, hinv⟩ := ikcpFlush_fill h.send currentMs
  have hside : (a.flush currentMs).kcp.sendSide = a.kcp.sendSide.fill moved rest := hfill
  refine ⟨moved, rest, hqueue, hside, hside ▸ hinv, ?_⟩
  have hmoved : moved.length < 2 ^ 16 := by
    have hlen := hinv.buf_length_lt
    simp only [SendSide.fill, List.length_append, length_numbered] at hlen
    omega
  have hnxt : (a.flush currentMs).kcp.sndNxt = a.kcp.sndNxt + UInt32.ofNat moved.length :=
    congrArg SendSide.nxt hside
  have hcount : (a.flush currentMs).kcp.sndNxt - a.kcp.sndNxt = UInt32.ofNat moved.length := by
    rw [hnxt]
    grind
  have hsum : (a.flush currentMs).assigned =
      a.assigned + ((a.flush currentMs).kcp.sndNxt - a.kcp.sndNxt).toNat :=
    congrArg KCPSession.Trace.assigned (a.flush_trace currentMs)
  rw [hsum, hcount, UInt32.toNat_ofNat', Nat.mod_eq_of_lt (by omega)]

/-- The buffer behind a flush that gives out the numbers from the end of the history on. -/
theorem Numbers.buf_eq {currentMs : UInt32} {moved rest : List IKCPSEG}
    (hn : Numbers a currentMs moved rest) (hnxt : a.kcp.sndNxt = UInt32.ofNat hist.length) :
    (a.flush currentMs).kcp.sendSide.buf =
      a.kcp.sendSide.buf ++ numbered a.kcp.conv (UInt32.ofNat hist.length) moved := by
  rw [hn.side_eq, ← hnxt]
  rfl

/-- The wire behind a flush holds copies of buffered segments besides what it held before. -/
theorem flush_pushed {a : KCPSession} (h : a.kcp.Inv) (currentMs : UInt32) {seg : IKCPSEG}
    (hseg : seg ∈ onWire a.kcp.conv (a.flush currentMs).outputs) (hcmd : seg.cmd = ikcpCmdPush) :
    seg ∈ onWire a.kcp.conv a.outputs ∨ seg.core ∈ (a.flush currentMs).kcp.sendSide.buf := by
  have hout : (a.flush currentMs).outputs = a.outputs ++ (ikcpFlush a.kcp currentMs).sent :=
    congrArg KCPSession.Trace.outputs (a.flush_trace currentMs)
  have hsegs : onWire a.kcp.conv (ikcpFlush a.kcp currentMs).sent =
      (ikcpFlushSegs a.kcp currentMs).map IKCPSEG.received := ikcpFlush_segments h currentMs
  rw [hout, onWire_append, hsegs] at hseg
  refine (List.mem_append.mp hseg).imp_right ?_
  intro hsent
  exact (ikcpFlushSegs_fields h currentMs hsent).2.2 hcmd

/-- A flush extends the history by the segments that it numbers. -/
theorem Linked.arq_flush (h : Linked a b hist pending) {currentMs : UInt32}
    {moved rest : List IKCPSEG} (hn : Numbers a currentMs moved rest)
    (hroom : hist.length + moved.length < 2 ^ 30)
    (hbuffered : ∀ seg ∈ (a.flush currentMs).kcp.sendSide.buf,
      (hist ++ numbered a.kcp.conv (UInt32.ofNat hist.length) moved)[seg.sn.toNat]? = some seg) :
    Arq.Step (arqState a.kcp.conv hist a.kcp.sendSide a.outputs b.kcp.receiveSide b.outputs)
      (arqState a.kcp.conv (hist ++ numbered a.kcp.conv (UInt32.ofNat hist.length) moved)
        (a.flush currentMs).kcp.sendSide (a.flush currentMs).outputs b.kcp.receiveSide
        b.outputs) := by
  have hbuf := hn.buf_eq h.nxt_eq
  refine { Arq.Step.refl (arqState a.kcp.conv hist a.kcp.sendSide a.outputs b.kcp.receiveSide
    b.outputs) with hist := List.prefix_append hist _, wire := ?_, unacked := ?_ }
  · rintro n x ⟨seg, hseg, hcmd, heq⟩
    rcases flush_pushed h.tx currentMs hseg hcmd with hold | hsent
    · exact Or.inl ⟨seg, hold, hcmd, heq⟩
    · obtain ⟨rfl, rfl⟩ := Prod.mk.inj heq
      exact Or.inr (hbuffered seg.core hsent)
  · intro n hlt
    change n < (hist ++ numbered a.kcp.conv (UInt32.ofNat hist.length) moved).length at hlt
    rw [List.length_append, length_numbered] at hlt
    by_cases hk : n ∈ (arqState a.kcp.conv hist a.kcp.sendSide a.outputs b.kcp.receiveSide
      b.outputs).unacked
    · obtain ⟨seg, hseg, hsn⟩ := hk
      exact Or.inl ⟨seg, hbuf ▸ List.mem_append_left _ hseg, hsn⟩
    by_cases hold : n < hist.length
    · exact Or.inr (Or.inr (Or.inr ⟨hold, hk⟩))
    · -- a number given out just now stands in the buffer
      obtain ⟨seg, hseg, hsn⟩ := exists_numbered a.kcp.conv (not_lt.mp hold) hlt (by omega)
      exact Or.inl ⟨seg, hbuf ▸ List.mem_append_right _ hseg, hsn⟩

/-- A flush numbers a front part of the queue, unless the numbers run out. -/
theorem Linked.tx_flush (h : Linked a b hist pending) (currentMs : UInt32) :
    Reliable (a.flush currentMs) b pending := by
  obtain ⟨moved, rest, hn⟩ := flush_numbers h.tx currentMs
  by_cases hover : 2 ^ 30 ≤ (a.flush currentMs).assigned
  · exact Or.inl hover
  have hroom : hist.length + moved.length < 2 ^ 30 := by
    rw [hn.assigned_eq, h.assigned_eq] at hover
    omega
  have hwrites : (a.flush currentMs).writes = a.writes :=
    congrArg KCPSession.Trace.writes (a.flush_trace currentMs)
  have hnxt : (a.flush currentMs).kcp.sndNxt = a.kcp.sndNxt + UInt32.ofNat moved.length :=
    congrArg SendSide.nxt hn.side_eq
  have hbuf := hn.buf_eq h.nxt_eq
  -- the numbers given out are the positions behind the history
  have hbuffered : ∀ seg ∈ (a.flush currentMs).kcp.sendSide.buf,
      (hist ++ numbered a.kcp.conv (UInt32.ofNat hist.length) moved)[seg.sn.toNat]? =
        some seg := by
    intro seg hseg
    rw [hbuf] at hseg
    rcases List.mem_append.mp hseg with hseg | hseg
    · exact Arq.getElem?_of_prefix (List.prefix_append hist _) (h.buffered seg hseg)
    · exact getElem?_numbered a.kcp.conv moved hist (by omega) seg hseg
  refine Or.inr ⟨_, h.tx_step (ControlCall.run_inv h.tx (.flush currentMs))
    (ikcpFlush_config a.kcp currentMs) ?_ ?_ ?_ ?_ hbuffered (h.arq_flush hn hroom hbuffered) ?_
    (hwrites ▸ h.pending_le)⟩
  · rw [List.length_append, length_numbered]
    exact hroom
  · intro seg hseg
    rcases List.mem_append.mp hseg with hseg | hseg
    · exact h.short seg hseg
    · have hle := (hn.inv.buffered seg (hbuf ▸ List.mem_append_right _ hseg)).data_le
      rw [hn.side_eq] at hle
      exact hle.trans h.mss_le
  · rw [hn.assigned_eq, h.assigned_eq, List.length_append, length_numbered]
  · rw [hnxt, h.nxt_eq, List.length_append, length_numbered, UInt32.ofNat_add]
  · intro hw
    rw [hwrites] at hw
    obtain ⟨lost, heq, hlost⟩ := h.written_eq hw
    have hrest : (a.flush currentMs).kcp.sndQueue = rest := congrArg SendSide.queue hn.side_eq
    refine ⟨lost, ?_, hlost⟩
    rw [KCPSession.written, hwrites, hrest, payload_append, payload_numbered,
      List.append_assoc (payload hist), ← payload_append, ← hn.queue_eq]
    exact heq

/-- One segment that the peer sent takes effect at the sender. -/
theorem Linked.tx_inputSeg {st : InputState} {seg : IKCPSEG}
    (h : Linked (a.setKcp st.kcp) b hist pending) (hw : seg.wnd.toNat < 2 ^ 16)
    (hwire : seg ∈ onWire st.kcp.conv b.outputs) :
    Linked (a.setKcp (ikcpInputSeg st seg).kcp) b hist pending := by
  obtain ⟨kept, hsub, hgone, heq⟩ := ikcpInputSeg_shrunk h.tx.send hw
  have hqueue : (ikcpInputSeg st seg).kcp.sndQueue = st.kcp.sndQueue :=
    congrArg SendSide.queue heq
  have hnxt : (ikcpInputSeg st seg).kcp.sndNxt = st.kcp.sndNxt := congrArg SendSide.nxt heq
  have hbuf : (ikcpInputSeg st seg).kcp.sendSide.buf = kept := by
    rw [heq]
    rfl
  have hle : ∀ m, (∃ seg ∈ onWire st.kcp.conv b.outputs, seg.una.toNat = m) → m ≤ hist.length :=
    fun m hm => (h.arq.unas_le m hm).trans h.arq.next_le
  have hbound := h.bound
  refine h.tx_step (ikcpInputSeg_inv h.tx hw) (ikcpInputSeg_config st seg) h.bound h.short
    h.assigned_eq (hnxt.trans h.nxt_eq) ?_ ?_ ?_ h.pending_le
  · intro s hs
    change s ∈ (ikcpInputSeg st seg).kcp.sendSide.buf at hs
    rw [hbuf] at hs
    exact h.buffered s (hsub.subset hs)
  · refine { Arq.Step.refl (arqState st.kcp.conv hist st.kcp.sendSide a.outputs b.kcp.receiveSide
      b.outputs) with unacked := ?_ }
    intro n hn
    by_cases hk : n ∈ (arqState st.kcp.conv hist st.kcp.sendSide a.outputs b.kcp.receiveSide
      b.outputs).unacked
    · obtain ⟨s, hs, hsn⟩ := hk
      rcases hgone s hs with hstill | huna | ⟨hack, hsame⟩
      · refine Or.inl ⟨s, ?_, hsn⟩
        change s ∈ (ikcpInputSeg st seg).kcp.sendSide.buf
        rwa [hbuf]
      · refine Or.inr (Or.inr (Or.inl ⟨seg.una.toNat, ⟨seg, hwire, rfl⟩, ?_⟩))
        have hlt := (List.getElem?_eq_some_iff.mp (h.buffered s hs)).1
        have hseg := hle _ ⟨seg, hwire, rfl⟩
        rw [itimediff_eq_sub (by omega) (by omega)] at huna
        omega
      · exact Or.inr (Or.inl (Or.inr ⟨seg, hwire, hack, hsame ▸ hsn⟩))
    · exact Or.inr (Or.inr (Or.inr ⟨hn, hk⟩))
  · intro hlen
    obtain ⟨lost, hwritten, hlost⟩ := h.written_eq hlen
    refine ⟨lost, ?_, hlost⟩
    change a.written = payload hist ++ payload (ikcpInputSeg st seg).kcp.sndQueue ++ lost ++ pending
    rw [hqueue]
    exact hwritten

/-- A datagram of the peer takes effect at the sender. -/
theorem Linked.tx_input (h : Linked a b hist pending) {data : List UInt8}
    (hdata : data ∈ b.outputs) :
    Linked (a.setKcp (ikcpInput a.kcp data).2) b hist pending := by
  refine (ikcpInput_induct
    (P := fun kcp => kcp.conv = a.kcp.conv ∧ Linked (a.setKcp kcp) b hist pending)
    data ⟨rfl, h⟩ ?_ ?_).2
  · rintro st seg hseg ⟨hconv, hst⟩
    obtain ⟨bytes, rest, hread⟩ := ikcpSegments_read hseg
    have hconv' : (ikcpInputSeg st seg).kcp.conv = st.kcp.conv :=
      congrArg Config.conv (ikcpInputSeg_config st seg)
    rw [← hconv] at hseg
    exact ⟨hconv'.trans hconv,
      hst.tx_inputSeg (ikcpReadSeg_wnd_lt hread) (mem_onWire hdata hseg)⟩
  · rintro st ⟨hconv, hst⟩
    have hconfig := ikcpInputEnd_config st a.kcp.sndUna
    exact ⟨(congrArg Config.conv hconfig).trans hconv,
      hst.tx_same (ikcpInputEnd_inv hst.tx _) hconfig (ikcpInputEnd_sides st _).1 rfl rfl rfl
        fun hopen => hopen⟩

/-- Every primitive step at the sender keeps the link, until the numbers run out. -/
theorem Linked.tx_sessionStep (h : Linked a b hist pending)
    (hstep : SessionStep (· ∈ b.outputs) (a, pending) (a', pending')) :
    Reliable a' b pending' := by
  cases hstep with
  | written => exact Or.inr ⟨hist, h.tx_written _⟩
  | enqueue _ taken _ alwaysStream hopen hok => exact Or.inr ⟨hist, h.tx_enqueue hopen hok⟩
  | refuse _ taken _ alwaysStream hfail =>
      rcases ikcpWrite_cases h.tx.mss_pos taken alwaysStream with ⟨_, hsame, _⟩ | ⟨_, _, _, heq⟩
      · rw [hsame]
        exact Or.inr ⟨hist, h⟩
      · rw [heq] at hfail
        exact absurd rfl hfail
  | discard _ _ hlost => exact Or.inr ⟨hist, h.tx_discard hlost⟩
  | flush _ _ currentMs => exact h.tx_flush currentMs
  | input _ data harrives => exact Or.inr ⟨hist, h.tx_input harrives⟩
  | receive _ size hsize =>
      obtain ⟨hkcp, _, hclosed, htrace⟩ := a.receive_spec size
      have hinv := ControlCall.run_inv h.tx (.recv (Int32.ofInt size))
      refine Or.inr ⟨hist, h.tx_same (hkcp ▸ hinv) ?_ ?_
        (congrArg KCPSession.Trace.outputs htrace) (congrArg KCPSession.Trace.writes htrace)
        (congrArg KCPSession.Trace.assigned htrace) fun hopen => hclosed ▸ hopen⟩
      · rw [hkcp]
        exact ikcpRecv_config a.kcp _
      · rw [hkcp, ikcpRecv_sendSide]
  | quiet _ _ event hquiet =>
      have htrace := a.log_trace hquiet
      exact Or.inr ⟨hist, h.tx_same h.tx rfl rfl (congrArg KCPSession.Trace.outputs htrace)
        (congrArg KCPSession.Trace.writes htrace) (congrArg KCPSession.Trace.assigned htrace)
        fun hopen => hopen⟩
  | address => exact Or.inr ⟨hist, h.tx_same h.tx rfl rfl rfl rfl rfl fun hopen => hopen⟩
  | closing =>
      refine Or.inr ⟨hist, h.tx_same h.tx rfl rfl rfl rfl rfl fun hopen => ?_⟩
      cases hopen

end Linked

end CodeBlocks.Kcp
