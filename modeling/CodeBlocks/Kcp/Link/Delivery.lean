import CodeBlocks.Kcp.Link.Sender

/-!
# Reliable delivery

Two fresh sessions with one id, joined by a network that may lose, repeat, delay
and reorder the datagrams they output, but not alter them. Bytes reach the
message callback of one side in the order and number in which they were written
at the other, and no segment is dropped before the peer has it.
-/

namespace CodeBlocks.Kcp

/-- Two sessions and everything that can happen to them. Either side runs its
tasks in any order, and every packet that arrives carries a body that the other
side has output before. -/
inductive Joined (sessionId : UInt32) : KCPSession → KCPSession → Prop where
  | fresh {a b : KCPSession} (addressA addressB : InetAddress)
      (callbacksA callbacksB : SessionCallbacks) (callsA callsB : List UserCall)
      (hmessageA : callbacksA.message = true) (hmessageB : callbacksB.message = true)
      (ha : KCPSession.initializeWith sessionId addressA sessionParams callbacksA callsA = some a)
      (hb : KCPSession.initializeWith sessionId addressB sessionParams callbacksB callsB = some b) :
      Joined sessionId a b
  | left {a b : KCPSession} (h : Joined sessionId a b) (task : SessionTask)
      (harrives : task.Arrives (· ∈ b.outputs)) : Joined sessionId (task.run a) b
  | right {a b : KCPSession} (h : Joined sessionId a b) (task : SessionTask)
      (harrives : task.Arrives (· ∈ a.outputs)) : Joined sessionId a (task.run b)

section Steps

variable {a a' b b' : KCPSession} {pending pending' : List UInt8} {arrives : List UInt8 → Prop}

/-- Numbers are never taken back. -/
theorem SessionStep.assigned_le (hstep : SessionStep arrives (a, pending) (a', pending')) :
    a.assigned ≤ a'.assigned := by
  cases hstep with
  | written => exact (congrArg KCPSession.Trace.assigned (a.log_written_trace _)).ge
  | flush _ _ currentMs =>
      have hsum := congrArg KCPSession.Trace.assigned (a.flush_trace currentMs)
      exact (Nat.le_add_right _ _).trans hsum.ge
  | receive _ size => exact (congrArg KCPSession.Trace.assigned (a.receive_spec size).2.2.2).ge
  | quiet _ _ event hquiet => exact (congrArg KCPSession.Trace.assigned (a.log_trace hquiet)).ge
  | _ => exact le_rfl

/-- Tasks of the sender keep the pair reliable. -/
theorem Reliable.tx_steps (h : Reliable a b [])
    (hsteps : SessionSteps (· ∈ b.outputs) (a, []) (a', [])) : Reliable a' b [] := by
  refine hsteps.preserves (P := fun s p => Reliable s b p) ?_ h
  rintro s p s' p' hstep (hover | ⟨hist, hlinked⟩)
  · exact Or.inl (hover.trans hstep.assigned_le)
  · exact hlinked.tx_sessionStep hstep

/-- So do tasks of the receiver. -/
theorem Reliable.rx_steps (h : Reliable a b [])
    (hsteps : SessionSteps (· ∈ a.outputs) (b, []) (b', [])) : Reliable a b' [] := by
  refine hsteps.preserves (P := fun s _ => Reliable a s []) ?_ h
  rintro s p s' p' hstep (hover | ⟨hist, hlinked⟩)
  · exact Or.inl hover
  · exact Or.inr ⟨hist, hlinked.rx_sessionStep hstep⟩

/-- Before anything is written there is nothing to lose. -/
theorem linked_fresh {sessionId : UInt32} {kcpA kcpB : IKCPCB}
    (ha : initializeControl sessionId sessionParams = some kcpA)
    (hb : initializeControl sessionId sessionParams = some kcpB) (addressA addressB : InetAddress)
    (callbacksA callbacksB : SessionCallbacks) (hmessage : callbacksB.message = true) :
    Linked { kcp := kcpA, sessionId, peerAddress := addressA, callbacks := callbacksA }
      { kcp := kcpB, sessionId, peerAddress := addressB, callbacks := callbacksB } [] [] := by
  have hspecA := initializeControl_spec ha
  have hspecB := initializeControl_spec hb
  have hmss : kcpA.mss = 1367 := congrArg SendSide.mss hspecA.sendSide_eq
  have hwnd : kcpB.rcvWnd = 128 := congrArg ReceiveSide.wnd hspecB.receiveSide_eq
  have hqueueA : kcpA.sndQueue = [] := congrArg SendSide.queue hspecA.sendSide_eq
  have hqueueB : kcpB.rcvQueue = [] := congrArg ReceiveSide.queue hspecB.receiveSide_eq
  constructor
  · exact initializeControl_inv ha
  · exact initializeControl_inv hb
  · exact (congrArg SendSide.conv hspecB.sendSide_eq).trans
      (congrArg SendSide.conv hspecA.sendSide_eq).symm
  · exact hmessage
  · rw [hmss]
    decide
  · rw [hwnd]
    decide
  · simp
  · simp
  · simp [hqueueB]
  · rfl
  · exact congrArg SendSide.nxt hspecA.sendSide_eq
  · simp [hspecA.sendSide_eq]
  · constructor <;>
      simp [arqState, onWire, hspecA.sendSide_eq, hspecB.receiveSide_eq, KCPSession.outputs]
  · simp [hqueueB, payload, KCPSession.delivered]
  · intro _
    exact ⟨[], by simp [hqueueA, payload, KCPSession.written, KCPSession.writes], fun _ => rfl⟩
  · exact Or.inl rfl

end Steps

/-- A joined pair is reliable in every state it reaches. -/
theorem Joined.reliable {sessionId : UInt32} {a b : KCPSession} (h : Joined sessionId a b) :
    Reliable a b [] := by
  induction h with
  | fresh addressA addressB callbacksA callbacksB callsA callsB _ hmessage ha hb =>
      obtain ⟨kcpA, hkcpA, hstepsA⟩ := KCPSession.initializeWith_steps ha
      obtain ⟨kcpB, hkcpB, hstepsB⟩ := KCPSession.initializeWith_steps hb
      have hfresh : Reliable _ _ [] := Or.inr ⟨[], linked_fresh hkcpA hkcpB addressA addressB
        callbacksA callbacksB hmessage⟩
      exact (hfresh.tx_steps (hstepsA _)).rx_steps (hstepsB _)
  | left _ task harrives ih => exact ih.tx_steps (SessionTask.run_steps _ harrives)
  | right _ task harrives ih => exact ih.rx_steps (SessionTask.run_steps _ harrives)

/-- Until `2 ^ 30` numbers are given out a joined pair is linked. -/
theorem Joined.linked {sessionId : UInt32} {a b : KCPSession} (h : Joined sessionId a b)
    (hassigned : a.assigned < 2 ^ 30) : ∃ hist, Linked a b hist [] :=
  h.reliable.resolve_left (not_le.mpr hassigned)

/-- A session as `Initialize` leaves it, with all callbacks set. -/
def freshSession (peerAddress : InetAddress) : KCPSession :=
  (KCPSession.initializeWith 7 peerAddress sessionParams {} []).getD
    { kcp := ikcpCreate 7, sessionId := 7, peerAddress, callbacks := {} }

/-- The arrival of the first datagram that a session has output. -/
def arrivalFrom (s : KCPSession) : SessionTask :=
  .packet ⟨s.outputs.headD [], 0, Nat.zero_le _⟩ s.peerAddress []

/-- A session that has written three bytes. -/
def greeter : KCPSession :=
  SessionTask.run (freshSession ⟨"10.0.0.2:7000"⟩) (.call (.write [1, 2, 3] 5))

/-- Its peer, which has received and acknowledged them. -/
def greeted : KCPSession :=
  SessionTask.run (SessionTask.run (freshSession ⟨"10.0.0.1:9000"⟩) (arrivalFrom greeter))
    (.update 50)

/-- The sender of the sample has written and flushed its greeting. -/
theorem joined_greeter : Joined 7 greeter (freshSession ⟨"10.0.0.1:9000"⟩) := by
  have hfresh : Joined 7 (freshSession ⟨"10.0.0.2:7000"⟩) (freshSession ⟨"10.0.0.1:9000"⟩) :=
    .fresh _ _ {} {} [] [] rfl rfl rfl rfl
  exact hfresh.left _ trivial

/-- The receiver has taken it in. -/
theorem joined_greeting : Joined 7 greeter greeted := by
  have harrives : greeter.outputs.headD [] ∈ greeter.outputs := by decide +kernel
  exact (joined_greeter.right (arrivalFrom greeter) harrives).right _ trivial

/-- The bytes handed to one side's message callback are a prefix of those written
at the other. -/
theorem delivered_prefix_written {sessionId : UInt32} {a b : KCPSession}
    (h : Joined sessionId a b) (hassigned : a.assigned < 2 ^ 30)
    (hwrites : ∀ data ∈ a.writes, data.length < 2 ^ 31) : b.delivered <+: a.written := by
  obtain ⟨hist, hlinked⟩ := h.linked hassigned
  obtain ⟨lost, hwritten, _⟩ := hlinked.written_eq hwrites
  have hdelivered : b.delivered <+: payload (hist.take b.kcp.rcvNxt.toNat) :=
    ⟨_, hlinked.delivered_eq⟩
  have hpassed : payload (hist.take b.kcp.rcvNxt.toNat) <+: payload hist := by
    refine ⟨payload (hist.drop b.kcp.rcvNxt.toNat), ?_⟩
    rw [← payload_append, List.take_append_drop]
  have hnumbered : payload hist <+: a.written := by
    rw [hwritten, List.append_nil, List.append_assoc]
    exact List.prefix_append _ _
  exact (hdelivered.trans hpassed).trans hnumbered

/-- What is delivered is what was written. -/
theorem delivered_prefix_written_greeting :
    greeted.delivered = [1, 2, 3] ∧ greeted.delivered <+: greeter.written :=
  ⟨by decide +kernel,
    delivered_prefix_written joined_greeting (by decide +kernel) (by decide +kernel)⟩

/-- A number that the sender no longer keeps is passed or stored at the receiver. -/
theorem dropped_segment_held {sessionId : UInt32} {a b : KCPSession} (h : Joined sessionId a b)
    (hassigned : a.assigned < 2 ^ 30) (sn : UInt32) (hsn : sn < a.kcp.sndNxt)
    (hdropped : ∀ seg ∈ a.kcp.sndBuf, seg.sn ≠ sn) :
    sn < b.kcp.rcvNxt ∨ ∃ seg ∈ b.kcp.rcvBuf, seg.sn = sn := by
  obtain ⟨hist, hlinked⟩ := h.linked hassigned
  have hbound := hlinked.bound
  have hlt : sn.toNat < hist.length := by
    rw [UInt32.lt_iff_toNat_lt, hlinked.nxt_eq, UInt32.toNat_ofNat',
      Nat.mod_eq_of_lt (by omega)] at hsn
    exact hsn
  rcases hlinked.arq.kept sn.toNat hlt with ⟨core, hcore, heq⟩ | hlow | ⟨item, seg, hseg, heq⟩
  · obtain ⟨seg, hseg, rfl⟩ := List.mem_map.mp hcore
    exact absurd (UInt32.toNat_inj.mp heq) (hdropped seg hseg)
  · exact Or.inl (UInt32.lt_iff_toNat_lt.mpr hlow)
  · exact Or.inr ⟨seg, hseg, UInt32.toNat_inj.mp (Prod.mk.inj heq).1⟩

/-- The acknowledgement reaches the writer, which drops number zero. -/
theorem dropped_segment_held_greeting :
    (SessionTask.run greeter (arrivalFrom greeted)).kcp.sndBuf = [] ∧
      (0 < greeted.kcp.rcvNxt ∨ ∃ seg ∈ greeted.kcp.rcvBuf, seg.sn = 0) := by
  have harrives : greeted.outputs.headD [] ∈ greeted.outputs := by decide +kernel
  have hjoined := joined_greeting.left (arrivalFrom greeted) harrives
  exact ⟨by decide +kernel, dropped_segment_held hjoined (by decide +kernel) 0 (by decide +kernel)
    (by decide +kernel)⟩

end CodeBlocks.Kcp
