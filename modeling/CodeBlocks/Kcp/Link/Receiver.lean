import Mathlib.Algebra.Order.BigOperators.Group.List
import Mathlib.Algebra.Order.Ring.Nat
import CodeBlocks.Kcp.Link.State

/-!
# Steps of the receiving side

What arrives at a receiver was sent by its peer, so storing it and passing over
a consecutive run are steps of the delivery protocol, and the bytes handed out
together with those still queued are the bytes of the numbers passed.
-/

namespace CodeBlocks.Kcp

open Serial

/-- The receiving half after a consecutive run at the front of `buf` was moved to the queue. -/
structure Advanced (buf : List IKCPSEG) (r r' : ReceiveSide) (moved : List IKCPSEG) : Prop where
  consecutive : Consecutive r.nxt moved
  length_le : moved.length ≤ r.wnd.toNat
  buf_eq : buf = moved ++ r'.buf
  nxt_eq : r'.nxt = r.nxt + UInt32.ofNat moved.length

/-- Nothing moves when the buffer and the number waited for are the same. -/
theorem Advanced.nil {buf : List IKCPSEG} {r r' : ReceiveSide} (hbuf : r'.buf = buf)
    (hnxt : r'.nxt = r.nxt) : Advanced buf r r' [] where
  consecutive := trivial
  length_le := Nat.zero_le _
  buf_eq := hbuf.symm
  nxt_eq := hnxt.trans (UInt32.add_zero _).symm

theorem ikcpMove_advanced {kcp : IKCPCB} (h : kcp.receiveSide.Inv) :
    ∃ moved, Advanced kcp.rcvBuf kcp.receiveSide (ikcpMove kcp).receiveSide moved ∧
      (ikcpMove kcp).rcvQueue = kcp.rcvQueue ++ moved ∧
      (ikcpMove kcp).acklist = kcp.acklist := by
  obtain ⟨moved, rest, hbuf, hcons, hroom, heq⟩ := ikcpMove_spec h
  rw [heq]
  refine ⟨moved, ⟨hcons, ?_, hbuf, rfl⟩, rfl, rfl⟩
  change moved.length ≤ kcp.rcvWnd.toNat
  omega

/-- A pushed segment takes effect: `buf` holds it now, unless its number was already
passed, and either way it is acknowledged. -/
structure Took (seg : IKCPSEG) (r r' : ReceiveSide) (buf moved : List IKCPSEG) : Prop where
  advanced : Advanced buf r r' moved
  queue_eq : r'.queue = r.queue ++ moved
  acks_eq : r'.acks = r.acks ++ [(seg.sn, seg.ts)]
  keep : ∀ s ∈ r.buf, s ∈ buf
  new : ∀ s ∈ buf, s ∈ r.buf ∨ s = seg
  held : itimediff seg.sn r.nxt < 0 ∨ ∃ s ∈ buf, s.sn = seg.sn

/-- A segment within the window is stored, once. -/
theorem ikcpParseData_took {kcp : IKCPCB} (h : kcp.receiveSide.Inv) {seg : IKCPSEG}
    (hin : dist kcp.rcvNxt seg.sn < kcp.rcvWnd.toNat) :
    ∃ buf moved, Took seg kcp.receiveSide
      (ikcpParseData (ikcpAckPush kcp seg.sn seg.ts) seg).receiveSide buf moved := by
  have hack := ikcpAckPush_inv h seg.sn seg.ts
  rcases ikcpParseData_cases hack seg with ⟨hout, _⟩ | ⟨_, ⟨⟨s, hs, hsn⟩, heq⟩ | hstore⟩
  · exact absurd hin hout
  · obtain ⟨moved, hadv, hqueue, hacks⟩ := ikcpMove_advanced hack
    rw [heq]
    exact ⟨_, moved, ⟨hadv.consecutive, hadv.length_le, hadv.buf_eq, hadv.nxt_eq⟩, hqueue, hacks,
      fun s hs => hs, fun s hs => Or.inl hs, Or.inr ⟨s, hs, hsn⟩⟩
  · obtain ⟨before, after, hbuf, hinv, heq⟩ := hstore
    obtain ⟨moved, hadv, hqueue, hacks⟩ := ikcpMove_advanced hinv
    have hold : kcp.receiveSide.buf = before ++ after := hbuf
    rw [heq]
    refine ⟨_, moved, ⟨hadv.consecutive, hadv.length_le, hadv.buf_eq, hadv.nxt_eq⟩, hqueue, hacks,
      ?_, ?_, Or.inr ⟨seg, List.mem_append_right _ List.mem_cons_self, rfl⟩⟩
    · intro s hs
      rw [hold] at hs
      rcases List.mem_append.mp hs with hs | hs
      · exact List.mem_append_left _ hs
      · exact List.mem_append_right _ (List.mem_cons_of_mem _ hs)
    · intro s hs
      rw [hold]
      rcases List.mem_append.mp hs with hs | hs
      · exact Or.inl (List.mem_append_left _ hs)
      · rcases List.mem_cons.mp hs with rfl | hs
        · exact Or.inr rfl
        · exact Or.inl (List.mem_append_right _ hs)

/-- A pushed segment is beyond the window or takes effect. -/
theorem ikcpInputPush_took {kcp : IKCPCB} (h : kcp.receiveSide.Inv) (seg : IKCPSEG) :
    (ikcpInputPush kcp seg).receiveSide = kcp.receiveSide ∨
      ∃ buf moved, Took seg kcp.receiveSide (ikcpInputPush kcp seg).receiveSide buf moved := by
  unfold ikcpInputPush
  by_cases hhi : itimediff seg.sn (kcp.rcvNxt + kcp.rcvWnd) < 0
  · rw [if_pos hhi]
    by_cases hlo : itimediff seg.sn (ikcpAckPush kcp seg.sn seg.ts).rcvNxt ≥ 0
    · simp only [hlo, ite_true]
      exact Or.inr (ikcpParseData_took h ((window_iff h.wnd_lt).mp ⟨hhi, hlo⟩))
    · simp only [hlo, ite_false]
      exact Or.inr ⟨_, [], .nil rfl rfl, (List.append_nil _).symm, rfl, fun s hs => hs,
        fun s hs => Or.inl hs, Or.inl (not_le.mp hlo)⟩
  · rw [if_neg hhi]
    exact Or.inl rfl

section Step

variable {conv : UInt32} {hist : List IKCPSEG} {tx : SendSide} {out : List (List UInt8)}
  {r r' : ReceiveSide} {back : List (List UInt8)} {buf moved : List IKCPSEG}

/-- Moving a run of the numbered items: nothing wraps, and exactly the run is passed. -/
theorem Advanced.passed (ha : Advanced buf r r' moved) (hbound : hist.length < 2 ^ 30)
    (hnxt : r.nxt.toNat ≤ hist.length) (hwnd : r.wnd.toNat < 2 ^ 31)
    (hbuf : ∀ s ∈ buf, hist[s.sn.toNat]? = some s.core) :
    r'.nxt.toNat = r.nxt.toNat + moved.length ∧
      hist.take r'.nxt.toNat = hist.take r.nxt.toNat ++ moved.map IKCPSEG.core ∧
      moved.map (fun seg => seg.sn.toNat) = List.range' r.nxt.toNat moved.length := by
  have hle := ha.length_le
  have hlen : (UInt32.ofNat moved.length).toNat = moved.length := by
    rw [UInt32.toNat_ofNat', Nat.mod_eq_of_lt (by omega)]
  have hnxt' : r'.nxt.toNat = r.nxt.toNat + moved.length := by
    rw [ha.nxt_eq, UInt32.toNat_add, hlen]
    omega
  refine ⟨hnxt', ?_, ha.consecutive.toNat_eq (by omega)⟩
  rw [hnxt']
  refine ha.consecutive.take_eq (by omega) fun s hs => hbuf s ?_
  rw [ha.buf_eq]
  exact List.mem_append_left _ hs

/-- Storing what the peer sent and passing over a run is a step of the protocol. -/
theorem Advanced.step (ha : Advanced buf r r' moved)
    (h : (arqState conv hist tx out r back).Inv) (hbound : hist.length < 2 ^ 30)
    (hwnd : r.wnd.toNat < 2 ^ 31) (hkeep : ∀ s ∈ r.buf, s ∈ buf)
    (hnew : ∀ s ∈ buf, s ∈ r.buf ∨
      (s.sn.toNat, s.core) ∈ (arqState conv hist tx out r back).wire)
    (hacks : ∀ entry ∈ r'.acks, entry ∈ r.acks ∨ entry.1.toNat < r.nxt.toNat ∨
      ∃ s ∈ buf, s.sn = entry.1) :
    Arq.Step (arqState conv hist tx out r back) (arqState conv hist tx out r' back) := by
  have hbuf : ∀ s ∈ buf, hist[s.sn.toNat]? = some s.core := by
    intro s hs
    rcases hnew s hs with hold | hwire
    · exact h.stored_hist _ _ ⟨s, hold, rfl⟩
    · exact h.wire_hist _ _ hwire
  obtain ⟨hnxt, _, hrange⟩ := ha.passed hbound h.next_le hwnd hbuf
  have hhas : ∀ s ∈ buf, (arqState conv hist tx out r' back).Has s.sn.toNat := by
    intro s hs
    rw [ha.buf_eq] at hs
    rcases List.mem_append.mp hs with hs | hs
    · have hmem : s.sn.toNat ∈ moved.map fun seg => seg.sn.toNat := List.mem_map_of_mem hs
      rw [hrange, List.mem_range'_1] at hmem
      apply Or.inl
      change s.sn.toNat < r'.nxt.toNat
      omega
    · exact Or.inr ⟨s.core, s, hs, rfl⟩
  refine { Arq.Step.refl (arqState conv hist tx out r back) with
    stored := ?_, next := ?_, has := ?_, passed := ?_, acks := ?_, unas := fun m hm => Or.inl hm }
  · rintro n x ⟨s, hs, heq⟩
    have hmem : s ∈ buf := by
      rw [ha.buf_eq]
      exact List.mem_append_right _ hs
    rcases hnew s hmem with hold | hwire
    · exact Or.inl ⟨s, hold, heq⟩
    · exact Or.inr (heq ▸ hwire)
  · change r.nxt.toNat ≤ r'.nxt.toNat
    omega
  · rintro n (hlt | ⟨x, s, hs, heq⟩)
    · apply Or.inl
      change n < r.nxt.toNat at hlt
      change n < r'.nxt.toNat
      omega
    · have hn : s.sn.toNat = n := congrArg Prod.fst heq
      rw [← hn]
      exact hhas s (hkeep s hs)
  · -- a number passed over just now is one of the run
    intro n hn
    change n < r'.nxt.toNat at hn
    by_cases hlt : n < r.nxt.toNat
    · exact Or.inl hlt
    · have hmem : n ∈ moved.map fun seg => seg.sn.toNat := by
        rw [hrange, List.mem_range'_1]
        omega
      obtain ⟨s, hs, rfl⟩ := List.mem_map.mp hmem
      refine Or.inr ⟨s.core, ?_⟩
      rcases hnew s (ha.buf_eq ▸ List.mem_append_left _ hs) with hold | hwire
      · exact Or.inl ⟨s, hold, rfl⟩
      · exact Or.inr hwire
  · rintro n (⟨entry, he, rfl⟩ | hwire)
    · rcases hacks entry he with hold | hlt | ⟨s, hs, hsn⟩
      · exact Or.inl (Or.inl ⟨entry, hold, rfl⟩)
      · refine Or.inr (Or.inl ?_)
        change entry.1.toNat < r'.nxt.toNat
        omega
      · exact Or.inr (hsn ▸ hhas s hs)
    · exact Or.inl (Or.inr hwire)

end Step

section Linked

variable {a b b' : KCPSession} {hist : List IKCPSEG} {pending : List UInt8}

/-- What a change at the receiver has to establish. -/
theorem Linked.rx_step (h : Linked a b hist pending) (hinv : b'.kcp.Inv)
    (hconfig : b'.kcp.config = b.kcp.config) (hcallbacks : b'.callbacks = b.callbacks)
    (hstep : Arq.Step
      (arqState a.kcp.conv hist a.kcp.sendSide a.outputs b.kcp.receiveSide b.outputs)
      (arqState a.kcp.conv hist a.kcp.sendSide a.outputs b'.kcp.receiveSide b'.outputs))
    (hshort : ∀ seg ∈ b'.kcp.rcvQueue, seg.data.length ≤ kMaxPacketSize)
    (hdelivered : b'.delivered ++ payload b'.kcp.rcvQueue =
      payload (hist.take b'.kcp.rcvNxt.toNat)) : Linked a b' hist pending where
  tx := h.tx
  rx := hinv
  conv_eq := (congrArg Config.conv hconfig).trans h.conv_eq
  message_set := hcallbacks ▸ h.message_set
  mss_le := h.mss_le
  rcvWnd_le := by
    have hwnd : b'.kcp.rcvWnd = b.kcp.rcvWnd := congrArg Config.rcvWnd hconfig
    rw [hwnd]
    exact h.rcvWnd_le
  bound := h.bound
  short := h.short
  queue_short := hshort
  assigned_eq := h.assigned_eq
  nxt_eq := h.nxt_eq
  buffered := h.buffered
  arq := hstep.inv h.arq
  delivered_eq := hdelivered
  written_eq := h.written_eq
  pending_le := h.pending_le

/-- A change at the receiver that its receiving half does not notice. -/
theorem Linked.rx_same (h : Linked a b hist pending) (hinv : b'.kcp.Inv)
    (hconfig : b'.kcp.config = b.kcp.config) (hcallbacks : b'.callbacks = b.callbacks)
    (hside : b'.kcp.receiveSide = b.kcp.receiveSide) (htrace : b'.outputs = b.outputs)
    (hdelivered : b'.delivered = b.delivered) : Linked a b' hist pending := by
  have hqueue : b'.kcp.rcvQueue = b.kcp.rcvQueue := congrArg ReceiveSide.queue hside
  have hnxt : b'.kcp.rcvNxt = b.kcp.rcvNxt := congrArg ReceiveSide.nxt hside
  refine h.rx_step hinv hconfig hcallbacks ?_ (hqueue ▸ h.queue_short) ?_
  · rw [hside, htrace]
    exact Arq.Step.refl _
  · rw [hdelivered, hqueue, hnxt]
    exact h.delivered_eq

/-- Passing over a run keeps the bytes in order: the queue grows by their payload. -/
theorem Linked.rx_advance (h : Linked a b hist pending) (hinv : b'.kcp.Inv)
    (hconfig : b'.kcp.config = b.kcp.config) (hcallbacks : b'.callbacks = b.callbacks)
    (htrace : b'.outputs = b.outputs) {buf moved taken behind : List IKCPSEG}
    (ha : Advanced buf b.kcp.receiveSide b'.kcp.receiveSide moved)
    (hkeep : ∀ s ∈ b.kcp.rcvBuf, s ∈ buf)
    (hnew : ∀ s ∈ buf, s ∈ b.kcp.rcvBuf ∨ s.cmd = ikcpCmdPush ∧ s ∈ onWire a.kcp.conv a.outputs)
    (hacks : ∀ entry ∈ b'.kcp.acklist, entry ∈ b.kcp.acklist ∨
      entry.1.toNat < b.kcp.rcvNxt.toNat ∨ ∃ s ∈ buf, s.sn = entry.1)
    (htaken : b.kcp.rcvQueue = taken ++ behind) (hqueue : b'.kcp.rcvQueue = behind ++ moved)
    (hdelivered : b'.delivered = b.delivered ++ payload taken) : Linked a b' hist pending := by
  have hwire : ∀ s ∈ buf, s ∈ b.kcp.rcvBuf ∨ (s.sn.toNat, s.core) ∈
      (arqState a.kcp.conv hist a.kcp.sendSide a.outputs b.kcp.receiveSide b.outputs).wire := by
    intro s hs
    exact (hnew s hs).imp_right fun hw => ⟨s, hw.2, hw.1, rfl⟩
  have hstored : ∀ s ∈ buf, hist[s.sn.toNat]? = some s.core := by
    intro s hs
    rcases hwire s hs with hold | hnew
    · exact h.arq.stored_hist _ _ ⟨s, hold, rfl⟩
    · exact h.arq.wire_hist _ _ hnew
  have hwnd : b.kcp.receiveSide.wnd.toNat < 2 ^ 31 := h.rx.receive.wnd_lt
  obtain ⟨_, htake, _⟩ := ha.passed h.bound h.arq.next_le hwnd hstored
  have hmoved : ∀ s ∈ moved, s ∈ buf := fun s hs => ha.buf_eq ▸ List.mem_append_left _ hs
  refine h.rx_step hinv hconfig hcallbacks ?_ ?_ ?_
  · rw [htrace]
    exact ha.step h.arq h.bound hwnd hkeep hwire hacks
  · intro s hs
    rw [hqueue] at hs
    rcases List.mem_append.mp hs with hs | hs
    · exact h.queue_short s (htaken ▸ List.mem_append_right _ hs)
    · have hmem := List.mem_of_getElem? (hstored s (hmoved s hs))
      exact h.short s.core hmem
  · have hbefore := h.delivered_eq
    rw [htaken, payload_append] at hbefore
    change _ = payload (hist.take b'.kcp.receiveSide.nxt.toNat)
    rw [hdelivered, hqueue, payload_append, htake, payload_append, payload_map_core,
      ← List.append_assoc, List.append_assoc b.delivered]
    exact congrArg (· ++ payload moved) hbefore

/-- One segment that the peer sent takes effect at the receiver. -/
theorem Linked.rx_inputSeg {st : InputState} {seg : IKCPSEG}
    (h : Linked a (b.setKcp st.kcp) hist pending) (hw : seg.wnd.toNat < 2 ^ 16)
    (hwire : seg ∈ onWire a.kcp.conv a.outputs) :
    Linked a (b.setKcp (ikcpInputSeg st seg).kcp) hist pending := by
  have hinv := ikcpInputSeg_inv h.rx hw
  have hconfig := ikcpInputSeg_config st seg
  rcases ikcpInputSeg_receiveSide st seg with hsame | ⟨hpush, kcp, hkcp, heq⟩
  · exact h.rx_same hinv hconfig rfl hsame rfl rfl
  have hpushed := ikcpInputPush_took (hkcp ▸ h.rx.receive : kcp.receiveSide.Inv) seg
  rw [← heq, hkcp] at hpushed
  rcases hpushed with hsame | ⟨buf, moved, htook⟩
  · exact h.rx_same hinv hconfig rfl hsame rfl rfl
  have htaken : st.kcp.rcvQueue = [] ++ st.kcp.rcvQueue := rfl
  refine h.rx_advance hinv hconfig rfl rfl htook.advanced htook.keep ?_ ?_ htaken htook.queue_eq
    (List.append_nil _).symm
  · intro x hx
    rcases htook.new x hx with hx | rfl
    · exact Or.inl hx
    · exact Or.inr ⟨hpush, hwire⟩
  · intro entry he
    change entry ∈ (ikcpInputSeg st seg).kcp.receiveSide.acks at he
    rw [htook.acks_eq] at he
    rcases List.mem_append.mp he with he | he
    · exact Or.inl he
    rw [List.mem_singleton.mp he]
    refine Or.inr (htook.held.imp_left ?_)
    -- no number of the history wraps, so the signed comparison is one of naturals
    intro hold
    have hseg := h.arq.wire_hist _ _ ⟨seg, hwire, hpush, rfl⟩
    have hlt : seg.sn.toNat < hist.length := (List.getElem?_eq_some_iff.mp hseg).1
    have hbound := h.bound
    have hle : st.kcp.receiveSide.nxt.toNat ≤ hist.length := h.arq.next_le
    rw [itimediff_eq_sub (by omega) (by omega)] at hold
    change seg.sn.toNat < st.kcp.receiveSide.nxt.toNat
    omega

/-- A datagram of the peer takes effect at the receiver, rejected midway or not. -/
theorem Linked.rx_input (h : Linked a b hist pending) {data : List UInt8}
    (hdata : data ∈ a.outputs) :
    Linked a (b.setKcp (ikcpInput b.kcp data).2) hist pending := by
  refine ikcpInput_induct (P := fun kcp => Linked a (b.setKcp kcp) hist pending) data h ?_ ?_
  · intro st seg hseg hst
    obtain ⟨bytes, rest, hread⟩ := ikcpSegments_read hseg
    rw [h.conv_eq] at hseg
    exact hst.rx_inputSeg (ikcpReadSeg_wnd_lt hread) (mem_onWire hdata hseg)
  · intro st hst
    exact hst.rx_same (ikcpInputEnd_inv hst.rx _) (ikcpInputEnd_config st _) rfl
      (ikcpInputEnd_sides st _).2 rfl rfl

/-- A flush of the receiver announces what it has. -/
theorem Linked.rx_flush (h : Linked a b hist pending) (currentMs : UInt32) :
    Linked a (b.flush currentMs) hist pending := by
  have htrace := b.flush_trace currentMs
  have hout : (b.flush currentMs).outputs = b.outputs ++ (ikcpFlush b.kcp currentMs).sent :=
    congrArg KCPSession.Trace.outputs htrace
  have hdel : (b.flush currentMs).delivered = b.delivered :=
    congrArg KCPSession.Trace.delivered htrace
  have hside : (b.flush currentMs).kcp.receiveSide = { b.kcp.receiveSide with acks := [] } :=
    ikcpFlush_receiveSide b.kcp currentMs
  have hqueue : (b.flush currentMs).kcp.rcvQueue = b.kcp.rcvQueue :=
    congrArg ReceiveSide.queue hside
  have hnxt : (b.flush currentMs).kcp.rcvNxt = b.kcp.rcvNxt := congrArg ReceiveSide.nxt hside
  have hsegs := ikcpFlush_segments h.rx currentMs
  have hwire : onWire a.kcp.conv (b.flush currentMs).outputs =
      onWire a.kcp.conv b.outputs ++ (ikcpFlushSegs b.kcp currentMs).map IKCPSEG.received := by
    rw [hout, onWire_append, ← hsegs, h.conv_eq]
    rfl
  refine h.rx_step (ControlCall.run_inv h.rx (.flush currentMs))
    (ikcpFlush_config b.kcp currentMs) rfl ?_ (hqueue ▸ h.queue_short) ?_
  · rw [hside]
    refine { Arq.Step.refl (arqState a.kcp.conv hist a.kcp.sendSide a.outputs b.kcp.receiveSide
      b.outputs) with acks := ?_, unas := ?_ }
    · rintro n (⟨_, he, _⟩ | ⟨seg, hseg, hcmd, rfl⟩)
      · cases he
      · rw [hwire] at hseg
        rcases List.mem_append.mp hseg with hold | hnew
        · exact Or.inl (Or.inr ⟨seg, hold, hcmd, rfl⟩)
        · obtain ⟨entry, hentry, hsn⟩ := (ikcpFlushSegs_fields h.rx currentMs hnew).2.1 hcmd
          exact Or.inl (Or.inl ⟨entry, hentry, by rw [hsn]⟩)
    · rintro m ⟨seg, hseg, rfl⟩
      rw [hwire] at hseg
      rcases List.mem_append.mp hseg with hold | hnew
      · exact Or.inl ⟨seg, hold, rfl⟩
      · apply Or.inr
        rw [(ikcpFlushSegs_fields h.rx currentMs hnew).1]
        exact le_rfl
  · rw [hdel, hqueue, hnxt]
    exact h.delivered_eq

/-- The bytes of a full receive queue fit in an `int`. -/
theorem Linked.message_short (h : Linked a b hist pending) :
    (payload (ikcpMessage b.kcp.rcvQueue).1).length < 2 ^ 31 := by
  have hlen := h.rx.receive.nque_le
  have hwnd := h.rcvWnd_le
  change b.kcp.rcvQueue.length ≤ b.kcp.rcvWnd.toNat at hlen
  have hsplit := ikcpMessage_append b.kcp.rcvQueue
  have hcount : (ikcpMessage b.kcp.rcvQueue).1.length ≤ 128 := by
    rw [← hsplit, List.length_append] at hlen
    omega
  have hbound : (payload (ikcpMessage b.kcp.rcvQueue).1).length ≤
      (ikcpMessage b.kcp.rcvQueue).1.length * kMaxPacketSize := by
    rw [payload, List.length_flatMap, ← List.length_map (f := fun seg => seg.data.length)]
    apply List.sum_le_card_nsmul _ _
    intro n hn
    obtain ⟨seg, hseg, rfl⟩ := List.mem_map.mp hn
    exact h.queue_short seg (hsplit ▸ List.mem_append_left _ hseg)
  have hmul := Nat.mul_le_mul_right kMaxPacketSize hcount
  simp only [kMaxPacketSize] at hbound hmul
  omega

/-- A message is handed out exactly when it is taken off the queue. -/
theorem Linked.rx_receive (h : Linked a b hist pending) {size : Int}
    (hsize : ¬ Int32.ofInt size < 0) : Linked a (b.receive size) hist pending := by
  obtain ⟨hkcp, hcallbacks, _, htrace⟩ := b.receive_spec size
  have hout : (b.receive size).outputs = b.outputs := congrArg KCPSession.Trace.outputs htrace
  have hdel := congrArg KCPSession.Trace.delivered htrace
  have hinv : (b.receive size).kcp.Inv := by
    rw [hkcp]
    exact ControlCall.run_inv h.rx (.recv (Int32.ofInt size))
  have hconfig : (b.receive size).kcp.config = b.kcp.config := by
    rw [hkcp]
    exact ikcpRecv_config b.kcp (Int32.ofInt size)
  simp only [KCPSession.trace, h.message_set, and_true] at hdel
  rcases ikcpRecv_cases b.kcp (Int32.ofInt size) with ⟨hneg, _, hsame⟩ | ⟨hbytes, hrc, recover, heq⟩
  · rw [if_neg (by omega), List.append_nil] at hdel
    refine h.rx_same hinv hconfig hcallbacks ?_ hout hdel
    rw [hkcp, hsame]
  · rw [if_neg hsize] at heq
    have hsplit := ikcpMessage_append b.kcp.rcvQueue
    have hmessage : (b.receive size).delivered =
        b.delivered ++ payload (ikcpMessage b.kcp.rcvQueue).1 := by
      rw [hbytes, ikcpIntLen_eq h.message_short] at hrc
      rw [hdel, hbytes]
      split
      · rfl
      · rw [List.eq_nil_of_length_eq_zero (l := payload _) (by omega)]
    obtain ⟨moved, hadv, hqueue, hacks⟩ := ikcpMove_advanced (ikcpDeliver_inv h.rx.receive)
    have hside : (b.receive size).kcp.receiveSide = (ikcpMove (ikcpDeliver b.kcp)).receiveSide := by
      rw [hkcp, heq, ikcpRecover_receiveSide]
    have hmoved : Advanced b.kcp.rcvBuf b.kcp.receiveSide (b.receive size).kcp.receiveSide moved :=
      ⟨hadv.consecutive, hadv.length_le, hside ▸ hadv.buf_eq, hside ▸ hadv.nxt_eq⟩
    refine h.rx_advance hinv hconfig hcallbacks hout hmoved
      (fun s hs => hs) (fun s hs => Or.inl hs) ?_ hsplit.symm ?_ hmessage
    · intro entry he
      have hal : (b.receive size).kcp.acklist = b.kcp.acklist :=
        (congrArg ReceiveSide.acks hside).trans hacks
      exact Or.inl (hal ▸ he)
    · exact (congrArg ReceiveSide.queue hside).trans hqueue

/-- Every primitive step at the receiver keeps the link, when what arrives there
was output by the sender. -/
theorem Linked.rx_sessionStep (h : Linked a b hist pending) {p p' : List UInt8}
    (hstep : SessionStep (· ∈ a.outputs) (b, p) (b', p')) : Linked a b' hist pending := by
  have hwrite (data : List UInt8) (alwaysStream : Bool) :
      Linked a (b.setKcp (ikcpWrite b.kcp data alwaysStream).2) hist pending :=
    h.rx_same (h.rx.of_config (ikcpWrite_inv h.rx.mss_pos h.rx.send data alwaysStream)
        (ikcpWrite_receiveSide b.kcp data alwaysStream ▸ h.rx.receive)
        (ikcpWrite_config b.kcp data alwaysStream))
      (ikcpWrite_config b.kcp data alwaysStream) rfl
      (ikcpWrite_receiveSide b.kcp data alwaysStream) rfl rfl
  cases hstep with
  | written =>
      have htrace := b.log_written_trace p'
      exact h.rx_same h.rx rfl rfl rfl (congrArg KCPSession.Trace.outputs htrace)
        (congrArg KCPSession.Trace.delivered htrace)
  | enqueue _ taken _ alwaysStream => exact hwrite taken alwaysStream
  | refuse _ taken _ alwaysStream => exact hwrite taken alwaysStream
  | discard => exact h
  | flush _ _ currentMs => exact h.rx_flush currentMs
  | input _ data harrives => exact h.rx_input harrives
  | receive _ size hsize => exact h.rx_receive hsize
  | quiet _ _ event hquiet =>
      have htrace := b.log_trace hquiet
      exact h.rx_same h.rx rfl rfl rfl (congrArg KCPSession.Trace.outputs htrace)
        (congrArg KCPSession.Trace.delivered htrace)
  | address => exact h.rx_same h.rx rfl rfl rfl rfl rfl
  | closing => exact h.rx_same h.rx rfl rfl rfl rfl rfl

end Linked

end CodeBlocks.Kcp
