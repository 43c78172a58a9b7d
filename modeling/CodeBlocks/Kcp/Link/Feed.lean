import CodeBlocks.Kcp.Link.Delivery
import CodeBlocks.Kcp.Session.Waiting

/-!
# What a receiver holds

A receiver moves segments to its queue in order, until the number it waits for is
missing or the queue is full. In a joined pair everything it holds was sent to it,
and since no datagram of the peer is refused, the receive loop reads what it can
after every task.
-/

namespace CodeBlocks.Kcp

open Serial

section Receiver

/-- The segments that have arrived and are not read yet. -/
def ReceiveSide.held (r : ReceiveSide) : List IKCPSEG := r.queue ++ r.buf

def IKCPCB.held (kcp : IKCPCB) : List IKCPSEG := kcp.receiveSide.held

/-- Moving to the queue keeps what is held. -/
theorem ikcpMove_held (kcp : IKCPCB) : (ikcpMove kcp).held = kcp.held := by
  have hloop (buf : List IKCPSEG) (k : IKCPCB) :
      (ikcpMoveLoop buf k).held = k.rcvQueue ++ buf := by
    induction buf generalizing k with
    | nil => rfl
    | cons seg buf ih =>
        unfold ikcpMoveLoop
        split
        · rw [ih, List.append_assoc]
          rfl
        · rfl
  exact hloop kcp.rcvBuf kcp

/-- A received segment is stored at most once. -/
theorem ikcpParseData_held (kcp : IKCPCB) (newseg : IKCPSEG) :
    (ikcpParseData kcp newseg).held = kcp.held ∨
      (ikcpParseData kcp newseg).held.Perm (newseg :: kcp.held) := by
  unfold ikcpParseData
  split
  · exact Or.inl rfl
  rcases ikcpInsert_cases newseg kcp.rcvBuf.reverse with
    ⟨hnone, _⟩ | ⟨later, earlier, hrev, hsome, _⟩
  · rw [hnone]
    exact Or.inl (ikcpMove_held kcp)
  · rw [hsome]
    refine Or.inr ?_
    simp only [ikcpMove_held]
    have hbuf : kcp.rcvBuf = earlier.reverse ++ later.reverse := by
      rw [← List.reverse_append, ← hrev, List.reverse_reverse]
    have hstored : (later ++ newseg :: earlier).reverse =
        earlier.reverse ++ newseg :: later.reverse := by
      rw [List.reverse_append, List.reverse_cons, List.append_assoc, List.singleton_append]
    change (kcp.rcvQueue ++ (later ++ newseg :: earlier).reverse).Perm
      (newseg :: (kcp.rcvQueue ++ kcp.rcvBuf))
    rw [hstored, hbuf, ← List.append_assoc, ← List.append_assoc]
    exact List.perm_middle

/-- One segment of a datagram adds itself at most, and only if it is a PUSH segment. -/
theorem ikcpInputSeg_held (st : InputState) (seg : IKCPSEG) :
    (ikcpInputSeg st seg).kcp.held = st.kcp.held ∨
      seg.cmd = ikcpCmdPush ∧ (ikcpInputSeg st seg).kcp.held.Perm (seg :: st.kcp.held) := by
  have heq {kcp kcp' : IKCPCB} (h : kcp'.receiveSide = kcp.receiveSide) : kcp'.held = kcp.held :=
    congrArg ReceiveSide.held h
  rcases ikcpInputSeg_receiveSide st seg with hsame | ⟨hpush, kcp, hkcp, hinput⟩
  · exact Or.inl (heq hsame)
  rw [heq hinput, ← heq hkcp]
  unfold ikcpInputPush
  split
  · simp only
    split
    · exact (ikcpParseData_held (ikcpAckPush kcp seg.sn seg.ts) seg).imp id (And.intro hpush)
    · exact Or.inl rfl
  · exact Or.inl rfl

/-- Reading adds nothing. -/
theorem ikcpRecv_held_subset (kcp : IKCPCB) (len : Int32) :
    (ikcpRecv kcp len).kcp.held ⊆ kcp.held := by
  rcases ikcpRecv_cases kcp len with ⟨_, _, heq⟩ | ⟨_, _, recover, heq⟩
  · rw [heq]
    exact List.Subset.refl _
  · have hmove : (ikcpRecv kcp len).kcp.held = (if len < 0 then kcp else ikcpDeliver kcp).held := by
      rw [heq]
      exact (congrArg ReceiveSide.held (ikcpRecover_receiveSide _ recover)).trans
        (ikcpMove_held _)
    rw [hmove]
    split
    · exact List.Subset.refl _
    · have hqueue : (ikcpMessage kcp.rcvQueue).2 ⊆ kcp.rcvQueue := by
        intro seg hseg
        rw [← ikcpMessage_append kcp.rcvQueue]
        exact List.mem_append_right _ hseg
      exact List.append_subset.mpr ⟨List.Subset.trans hqueue (List.subset_append_left _ _),
        List.subset_append_right _ _⟩

/-- The queue holds the numbers just before the one waited for. -/
def ReceiveSide.Contiguous (r : ReceiveSide) : Prop :=
  ∃ first, Consecutive first r.queue ∧ r.nxt = first + UInt32.ofNat r.queue.length

theorem Consecutive.of_append {nxt : UInt32} {run more : List IKCPSEG}
    (h : Consecutive nxt (run ++ more)) : Consecutive (nxt + UInt32.ofNat run.length) more := by
  induction run generalizing nxt with
  | nil => simpa using h
  | cons seg run ih =>
      have hrest := ih h.2
      rwa [add_one_add_length nxt seg run] at hrest

/-- What passes into the queue goes on where it ends. -/
theorem ReceiveSide.Contiguous.append {r r' : ReceiveSide} {run : List IKCPSEG}
    (h : r.Contiguous) (hpasses : r.Passes r' run) : r'.Contiguous := by
  obtain ⟨first, hqueued, heq⟩ := h
  refine ⟨first, ?_, ?_⟩
  · rw [hpasses.queue_eq]
    exact hqueued.append (heq ▸ hpasses.consecutive)
  · rw [hpasses.nxt_eq, heq, hpasses.queue_eq, List.length_append, UInt32.ofNat_add,
      UInt32.add_assoc]

/-- Moving to the queue keeps it contiguous. -/
theorem ikcpMove_contiguous {kcp : IKCPCB} (h : kcp.receiveSide.Inv)
    (hqueue : kcp.receiveSide.Contiguous) : (ikcpMove kcp).receiveSide.Contiguous := by
  obtain ⟨moved, hpasses, -⟩ := ikcpMove_passes h
  exact hqueue.append hpasses

/-- Taking the first message off leaves the numbers behind it. -/
theorem ikcpDeliver_contiguous {kcp : IKCPCB} (h : kcp.receiveSide.Contiguous) :
    (ikcpDeliver kcp).receiveSide.Contiguous := by
  obtain ⟨first, hqueued, heq⟩ := h
  have hsplit : (ikcpMessage kcp.rcvQueue).1 ++ (ikcpMessage kcp.rcvQueue).2 =
      kcp.receiveSide.queue := ikcpMessage_append kcp.rcvQueue
  rw [← hsplit] at hqueued heq
  refine ⟨_, hqueued.of_append, ?_⟩
  change kcp.receiveSide.nxt = _ + UInt32.ofNat (ikcpMessage kcp.rcvQueue).2.length
  rw [heq, List.length_append, UInt32.ofNat_add, UInt32.add_assoc]

/-- So does reading a message off its front. -/
theorem ikcpRecv_contiguous {kcp : IKCPCB} (h : kcp.receiveSide.Inv)
    (hqueue : kcp.receiveSide.Contiguous) (len : Int32) :
    (ikcpRecv kcp len).kcp.receiveSide.Contiguous := by
  rcases ikcpRecv_cases kcp len with ⟨_, _, heq⟩ | ⟨_, _, recover, heq⟩
  · rwa [heq]
  · rw [heq, ikcpRecover_receiveSide]
    split
    · exact ikcpMove_contiguous h hqueue
    · exact ikcpMove_contiguous (ikcpDeliver_inv h) (ikcpDeliver_contiguous hqueue)

end Receiver

/-- What a receiver holds was sent to it, and it has moved on in order and as far as it can. -/
structure KCPSession.Fed (bodies : List (List UInt8)) (s : KCPSession) : Prop where
  inv : s.kcp.Inv
  sent : ∀ seg ∈ s.kcp.held, seg.cmd = ikcpCmdPush ∧ seg ∈ onWire s.kcp.conv bodies
  contiguous : s.kcp.receiveSide.Contiguous
  moved : s.kcp.receiveSide.Moved

namespace KCPSession.Fed

variable {bodies more : List (List UInt8)} {s s' : KCPSession}

/-- A session is fed by any datagrams that have all these segments. -/
theorem mono (h : s.Fed bodies) (hsub : ∀ seg ∈ onWire s.kcp.conv bodies,
    seg ∈ onWire s.kcp.conv more) : s.Fed more :=
  ⟨h.inv, fun seg hseg => (h.sent seg hseg).imp_right (hsub seg), h.contiguous, h.moved⟩

/-- A change that the receiver does not notice, up to the acknowledgements it owes. -/
theorem same (h : s.Fed bodies) (hinv : s'.kcp.Inv) (hconfig : s'.kcp.config = s.kcp.config)
    (hheld : s'.kcp.held = s.kcp.held) (hcontiguous : s'.kcp.receiveSide.Contiguous)
    (hmoved : s'.kcp.receiveSide.Moved) : s'.Fed bodies := by
  have hconv : s'.kcp.conv = s.kcp.conv := congrArg Config.conv hconfig
  refine ⟨hinv, ?_, hcontiguous, hmoved⟩
  rw [hheld, hconv]
  exact h.sent

/-- A session that takes in one of the datagrams is still fed by them. -/
theorem input (h : s.Fed bodies) {data : List UInt8} (hdata : data ∈ bodies) :
    (s.setKcp (ikcpInput s.kcp data).2).Fed bodies := by
  refine (ikcpInput_induct (P := fun kcp => kcp.conv = s.kcp.conv ∧ (s.setKcp kcp).Fed bodies)
    data ⟨rfl, h⟩ ?_ ?_).2
  · rintro st seg hseg ⟨hconv, hst⟩
    obtain ⟨bytes, rest, hread⟩ := ikcpSegments_read hseg
    have hconfig := ikcpInputSeg_config st seg
    have hconv' : (ikcpInputSeg st seg).kcp.conv = st.kcp.conv := congrArg Config.conv hconfig
    have hinv := ikcpInputSeg_inv hst.inv (ikcpReadSeg_wnd_lt hread)
    have hmoved := ikcpInputSeg_moved hst.inv.receive hst.moved seg
    obtain ⟨run, hrun⟩ := ikcpInputSeg_received hst.inv.receive (List.mem_singleton_self seg)
    have hcontiguous := hst.contiguous.append hrun.passes
    refine ⟨hconv'.trans hconv, ?_⟩
    rcases ikcpInputSeg_held st seg with hsame | ⟨hpush, hperm⟩
    · exact hst.same hinv hconfig hsame hcontiguous hmoved
    · refine ⟨hinv, fun x hx => ?_, hcontiguous, hmoved⟩
      change x ∈ (ikcpInputSeg st seg).kcp.held at hx
      change _ ∧ x ∈ onWire (ikcpInputSeg st seg).kcp.conv bodies
      rw [hconv']
      rcases List.mem_cons.mp (hperm.mem_iff.mp hx) with rfl | hx
      · exact ⟨hpush, hconv ▸ mem_onWire hdata hseg⟩
      · exact hst.sent x hx
  · rintro st ⟨hconv, hst⟩
    have hconfig := ikcpInputEnd_config st s.kcp.sndUna
    have hside := (ikcpInputEnd_sides st s.kcp.sndUna).2
    exact ⟨(congrArg Config.conv hconfig).trans hconv, hst.same (ikcpInputEnd_inv hst.inv _)
      hconfig (congrArg ReceiveSide.held hside) (hside.symm ▸ hst.contiguous)
      (hside.symm ▸ hst.moved)⟩

/-- So is one that reads. -/
theorem receive (h : s.Fed bodies) (size : Int) : (s.receive size).Fed bodies := by
  have hkcp := (s.receive_spec size).1
  have hconfig := ikcpRecv_config s.kcp (Int32.ofInt size)
  have hconv : (ikcpRecv s.kcp (Int32.ofInt size)).kcp.conv = s.kcp.conv :=
    congrArg Config.conv hconfig
  constructor
  · rw [hkcp]
    exact ControlCall.run_inv h.inv (.recv (Int32.ofInt size))
  · rw [hkcp, hconv]
    exact fun seg hseg => h.sent seg (ikcpRecv_held_subset s.kcp _ hseg)
  · rw [hkcp]
    exact ikcpRecv_contiguous h.inv.receive h.contiguous _
  · rw [hkcp]
    exact ikcpRecv_moved h.inv.receive h.moved _

end KCPSession.Fed

/-- Every primitive step keeps the receiver fed, when what arrives was sent to it. -/
theorem SessionStep.fed {bodies : List (List UInt8)} {s s' : KCPSession} {p p' : List UInt8}
    (hstep : SessionStep (· ∈ bodies) (s, p) (s', p')) (h : s.Fed bodies) : s'.Fed bodies := by
  have hinv := hstep.inv h.inv
  have hconfig := hstep.config
  have hwrite (data : List UInt8) (alwaysStream : Bool)
      (hs' : s' = s.setKcp (ikcpWrite s.kcp data alwaysStream).2) : s'.Fed bodies := by
    have hside : s'.kcp.receiveSide = s.kcp.receiveSide := by
      rw [hs']
      exact ikcpWrite_receiveSide s.kcp data alwaysStream
    exact h.same hinv hconfig (congrArg ReceiveSide.held hside) (hside ▸ h.contiguous)
      (hside ▸ h.moved)
  cases hstep with
  | enqueue _ taken _ alwaysStream => exact hwrite taken alwaysStream rfl
  | refuse _ taken _ alwaysStream => exact hwrite taken alwaysStream rfl
  | flush _ _ currentMs =>
      have hside : (s.flush currentMs).kcp.receiveSide = { s.kcp.receiveSide with acks := [] } :=
        ikcpFlush_receiveSide s.kcp currentMs
      refine h.same hinv hconfig ?_ (hside.symm ▸ h.contiguous) (hside.symm ▸ h.moved)
      rw [IKCPCB.held, hside]
      rfl
  | input _ data hdata => exact h.input hdata
  | receive _ size => exact h.receive size
  | _ => exact h.same hinv hconfig rfl h.contiguous h.moved

/-- A datagram that the peer reads to its end. -/
structure Framed (conv : UInt32) (body : List UInt8) : Prop where
  overhead_le : ikcpOverhead ≤ body.length
  length_lt : body.length < 2 ^ 31
  rc_eq : (ikcpSegments body.length conv body).1 = 0

/-- Such a datagram is not too short for `ikcp_input`. -/
theorem Framed.not_short {conv : UInt32} {body : List UInt8} (h : Framed conv body) :
    ¬ ikcpIntLen body < ikcpOverhead := by
  have hlen := h.overhead_le
  rw [ikcpIntLen_eq h.length_lt]
  omega

/-- Where a segment of a datagram establishes what the segments behind it keep, it holds after the
datagram. -/
theorem Framed.input_induct {kcp : IKCPCB} {body : List UInt8} (h : Framed kcp.conv body)
    {seg : IKCPSEG} (hseg : seg ∈ (ikcpSegments body.length kcp.conv body).2.1)
    {P Q : InputState → Prop} {R : IKCPCB → Prop} (hstart : P ⟨kcp, none⟩)
    (hbefore : ∀ st x, x ∈ (ikcpSegments body.length kcp.conv body).2.1 → P st →
      P (ikcpInputSeg st x))
    (hat : ∀ st, P st → Q (ikcpInputSeg st seg))
    (hbehind : ∀ st x, x ∈ (ikcpSegments body.length kcp.conv body).2.1 → Q st →
      Q (ikcpInputSeg st x))
    (hend : ∀ st, Q st → R (ikcpInputEnd st kcp.sndUna)) : R (ikcpInput kcp body).2 := by
  rw [ikcpInput_eq, if_neg h.not_short]
  simp only [h.rc_eq, lt_irrefl, ite_false]
  obtain ⟨before, behind, hsplit⟩ := List.append_of_mem hseg
  rw [hsplit] at hbefore hbehind ⊢
  rw [List.foldl_append, List.foldl_cons]
  have hmid : P (before.foldl ikcpInputSeg ⟨kcp, none⟩) :=
    List.foldlRecOn (motive := P) before ikcpInputSeg hstart
      fun st hst x hx => hbefore st x (List.mem_append_left _ hx) hst
  refine hend _ (List.foldlRecOn (motive := Q) behind ikcpInputSeg (hat _ hmid) ?_)
  intro st hst x hx
  exact hbehind st x (List.mem_append_right _ (List.mem_cons_of_mem _ hx)) hst

/-- The datagrams of a session can be read to their end, and no message in them has more segments
than a receive window. -/
structure KCPSession.Framing (s : KCPSession) : Prop where
  inv : s.kcp.Inv
  framed : ∀ body ∈ s.outputs, Framed s.kcp.conv body
  frg_lt : ∀ seg ∈ onWire s.kcp.conv s.outputs, seg.cmd = ikcpCmdPush → seg.frg.toNat < 128

/-- What a flush puts out can be read to its end. -/
theorem KCPSession.Framing.flush {s : KCPSession} (h : s.Framing) (currentMs : UInt32) :
    (s.flush currentMs).Framing := by
  have hinv : (s.flush currentMs).kcp.Inv := ControlCall.run_inv h.inv (.flush currentMs)
  have hconv : (s.flush currentMs).kcp.conv = s.kcp.conv :=
    congrArg Config.conv (ikcpFlush_config s.kcp currentMs)
  have hout : (s.flush currentMs).outputs = s.outputs ++ (ikcpFlush s.kcp currentMs).sent :=
    congrArg KCPSession.Trace.outputs (s.flush_trace currentMs)
  refine ⟨hinv, ?_, ?_⟩
  · rw [hconv, hout]
    intro body hbody
    rcases List.mem_append.mp hbody with hold | hnew
    · exact h.framed body hold
    · obtain ⟨hge, hle, hrc, _⟩ := ikcpFlush_framed h.inv currentMs hnew
      have hmtu := h.inv.mtu_lt
      exact ⟨hge, by omega, hrc⟩
  · rw [hconv]
    intro seg hseg hcmd
    rcases flush_pushed h.inv currentMs hseg hcmd with hold | hsent
    · exact h.frg_lt seg hold hcmd
    · exact (hinv.send.buffered seg.core hsent).frg_lt

/-- Only a flush outputs anything. -/
theorem SessionStep.outputs_cases {arrives : List UInt8 → Prop} {s s' : KCPSession}
    {p p' : List UInt8} (hstep : SessionStep arrives (s, p) (s', p')) :
    s'.outputs = s.outputs ∨ ∃ currentMs, s' = s.flush currentMs := by
  cases hstep with
  | flush _ _ currentMs => exact Or.inr ⟨currentMs, rfl⟩
  | receive _ size =>
      exact Or.inl (congrArg KCPSession.Trace.outputs (s.receive_spec size).2.2.2)
  | written => exact Or.inl (congrArg KCPSession.Trace.outputs (s.log_written_trace p'))
  | quiet _ _ event hquiet =>
      exact Or.inl (congrArg KCPSession.Trace.outputs (s.log_trace hquiet))
  | _ => exact Or.inl rfl

/-- What was put out stays put out. -/
theorem SessionStep.outputs_subset {arrives : List UInt8 → Prop} {s s' : KCPSession}
    {p p' : List UInt8} (hstep : SessionStep arrives (s, p) (s', p')) : s.outputs ⊆ s'.outputs := by
  rcases hstep.outputs_cases with hsame | ⟨currentMs, rfl⟩
  · rw [hsame]
    exact List.Subset.refl _
  · have hout : (s.flush currentMs).outputs = s.outputs ++ (ikcpFlush s.kcp currentMs).sent :=
      congrArg KCPSession.Trace.outputs (s.flush_trace currentMs)
    rw [hout]
    exact List.subset_append_left _ _

/-- So can what any small step puts out. -/
theorem SessionStep.framing {arrives : List UInt8 → Prop} {s s' : KCPSession}
    {p p' : List UInt8} (hstep : SessionStep arrives (s, p) (s', p')) (h : s.Framing) :
    s'.Framing := by
  rcases hstep.outputs_cases with hsame | ⟨currentMs, rfl⟩
  · have hconv : s'.kcp.conv = s.kcp.conv := congrArg Config.conv hstep.config
    refine ⟨hstep.inv h.inv, ?_, ?_⟩
    · rw [hconv, hsame]
      exact h.framed
    · rw [hconv, hsame]
      exact h.frg_lt
  · exact h.flush currentMs

/-- One direction of a pair: what the receiver holds was sent, and it reads what it can. -/
structure Feeding (a b : KCPSession) : Prop where
  framing : a.Framing
  fed : b.Fed a.outputs
  conv_eq : b.kcp.conv = a.kcp.conv
  readOut : b.ReadOut

namespace Feeding

variable {a a' b b' : KCPSession}

/-- Steps of the sender. -/
theorem tx_steps (h : Feeding a b) {arrives : List UInt8 → Prop}
    (hsteps : SessionSteps arrives (a, []) (a', [])) : Feeding a' b := by
  refine hsteps.preserves (P := fun s _ => Feeding s b) ?_ h
  intro s p s' p' hstep hs
  have hconv : s'.kcp.conv = s.kcp.conv := congrArg Config.conv hstep.config
  refine ⟨hstep.framing hs.framing, hs.fed.mono ?_, hs.conv_eq.trans hconv.symm, hs.readOut⟩
  intro seg hseg
  obtain ⟨body, hbody, hread⟩ := List.mem_flatMap.mp hseg
  exact mem_onWire (hstep.outputs_subset hbody) hread

/-- A datagram of the sender is never refused, so it cuts no message. -/
theorem cutsNone (h : Feeding a b) {task : SessionTask} (harrives : task.Arrives (· ∈ a.outputs)) :
    task.CutsNone b := by
  cases task with
  | packet received _ _ =>
      intro hneg
      have hframed := (h.framing.framed _ harrives).rc_eq
      rw [h.conv_eq, hframed] at hneg
      exact absurd hneg (lt_irrefl 0)
  | _ => trivial

/-- A task of the receiver. -/
theorem rx_task (h : Feeding a b) {task : SessionTask} (harrives : task.Arrives (· ∈ a.outputs)) :
    Feeding a (task.run b) := by
  have hsteps := SessionTask.run_steps b harrives
  refine ⟨h.framing, ?_, ?_, h.readOut.run h.fed.inv (h.cutsNone harrives)⟩
  · exact hsteps.preserves (P := fun s _ => s.Fed a.outputs)
      (fun _ _ _ _ hstep hs => hstep.fed hs) h.fed
  · have hconfig := (SessionSteps.inv hsteps h.fed.inv).2
    exact (congrArg Config.conv hconfig).trans h.conv_eq

/-- Before anything is sent the receiver holds nothing. -/
theorem start {sessionId : UInt32} {addressA addressB : InetAddress}
    {callbacksA callbacksB : SessionCallbacks} {callsA callsB : List UserCall}
    (ha : KCPSession.initializeWith sessionId addressA sessionParams callbacksA callsA = some a)
    (hb : KCPSession.initializeWith sessionId addressB sessionParams callbacksB callsB = some b) :
    Feeding a b := by
  obtain ⟨kcpA, hkcpA, hrunA⟩ := KCPSession.initializeWith_steps ha
  obtain ⟨kcpB, hkcpB, hrunB⟩ := KCPSession.initializeWith_steps hb
  have hside := (initializeControl_spec hkcpB).receiveSide_eq
  have hfresh : Feeding { kcp := kcpA, sessionId, peerAddress := addressA, callbacks := callbacksA }
      b := by
    refine ⟨⟨initializeControl_inv hkcpA, List.forall_mem_nil _, List.forall_mem_nil _⟩, ?_, ?_,
      (KCPSession.ReadOut.start hb).1⟩
    · refine (hrunB _).preserves (P := fun s _ => s.Fed [])
        (fun _ _ _ _ hstep hs => hstep.fed hs) ⟨initializeControl_inv hkcpB, ?_, ?_, Or.inr ?_⟩
      · simp [IKCPCB.held, ReceiveSide.held, hside]
      · rw [hside]
        exact ⟨0, trivial, rfl⟩
      · simp [hside]
    · have hconfig := (SessionSteps.inv (hrunB fun _ => False) (initializeControl_inv hkcpB)).2
      have hconvA := congrArg SendSide.conv (initializeControl_spec hkcpA).sendSide_eq
      have hconvB := congrArg SendSide.conv (initializeControl_spec hkcpB).sendSide_eq
      exact ((congrArg Config.conv hconfig).trans hconvB).trans hconvA.symm
  exact hfresh.tx_steps (hrunA fun _ => False)

end Feeding

/-- Of two sessions that are joined one feeds the other. -/
theorem Joined.feeding {sessionId : UInt32} {a b : KCPSession} (h : Joined sessionId a b) :
    Feeding a b := by
  induction h with
  | fresh _ _ _ _ _ _ _ _ ha hb => exact .start ha hb
  | left _ task harrives ih => exact ih.tx_steps (SessionTask.run_steps _ harrives)
  | right _ task harrives ih => exact ih.rx_task harrives

/-- The windows of a pair have the size that a new control block gives them. -/
theorem Joined.windows {sessionId : UInt32} {a b : KCPSession} (h : Joined sessionId a b) :
    a.kcp.sndWnd = 128 ∧ b.kcp.rcvWnd = 128 := by
  have hsettings {arrives : List UInt8 → Prop} {s s' : KCPSession}
      (hsteps : SessionSteps arrives (s, []) (s', [])) (hinv : s.kcp.Inv) :
      s'.kcp.sndWnd = s.kcp.sndWnd ∧ s'.kcp.rcvWnd = s.kcp.rcvWnd := by
    have hconfig := (SessionSteps.inv hsteps hinv).2
    exact ⟨congrArg Config.sndWnd hconfig, congrArg Config.rcvWnd hconfig⟩
  induction h with
  | fresh _ _ _ _ _ _ _ _ ha hb =>
      obtain ⟨kcpA, hkcpA, hrunA⟩ := KCPSession.initializeWith_steps ha
      obtain ⟨kcpB, hkcpB, hrunB⟩ := KCPSession.initializeWith_steps hb
      have hsnd := (hsettings (hrunA fun _ => False) (initializeControl_inv hkcpA)).1
      have hrcv := (hsettings (hrunB fun _ => False) (initializeControl_inv hkcpB)).2
      exact ⟨hsnd.trans (congrArg SendSide.wnd (initializeControl_spec hkcpA).sendSide_eq),
        hrcv.trans (congrArg ReceiveSide.wnd (initializeControl_spec hkcpB).receiveSide_eq)⟩
  | left hjoined task harrives ih =>
      have hinv := hjoined.feeding.framing.inv
      exact ⟨(hsettings (SessionTask.run_steps _ harrives) hinv).1.trans ih.1, ih.2⟩
  | right hjoined task harrives ih =>
      have hinv := hjoined.feeding.fed.inv
      exact ⟨ih.1, (hsettings (SessionTask.run_steps _ harrives) hinv).2.trans ih.2⟩

end CodeBlocks.Kcp
