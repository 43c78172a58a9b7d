import CodeBlocks.Kcp.Session.Completion
import CodeBlocks.Kcp.Session.Discipline

/-!
# No complete message is left waiting

The receive loop follows every datagram that `ikcp_input` reads to its end, but
not one that it refuses. The segments before the refused one have taken effect
then, and a message that they complete stays where it is.
-/

namespace CodeBlocks.Kcp

/-- A run of segments that the receiver waits for, from those it has stored and those of a
datagram, completes the first message within the receive window. -/
def IKCPCB.Completes (kcp : IKCPCB) (segs : List IKCPSEG) : Prop :=
  ∃ run, Consecutive kcp.rcvNxt run ∧
    (∀ seg ∈ run, seg ∈ kcp.rcvBuf ∨ seg ∈ segs ∧ seg.cmd = ikcpCmdPush) ∧
    (kcp.rcvQueue ++ run).length ≤ kcp.rcvWnd.toNat ∧ Complete (kcp.rcvQueue ++ run)

/-- What some accepted segments have moved to the queue of `r`. -/
structure Received (segs : List IKCPSEG) (r r' : ReceiveSide) (run : List IKCPSEG) : Prop where
  passes : r.Passes r' run
  new : ∀ seg ∈ run ++ r'.buf, seg ∈ r.buf ∨ seg ∈ segs ∧ seg.cmd = ikcpCmdPush

/-- Nothing is received by doing nothing. -/
theorem Received.refl (segs : List IKCPSEG) (r : ReceiveSide) : Received segs r r [] :=
  ⟨.refl r, fun _ hseg => Or.inl hseg⟩

/-- What two stretches receive is received by the whole. -/
theorem Received.trans {segs : List IKCPSEG} {r r₁ r₂ : ReceiveSide} {run more : List IKCPSEG}
    (h : Received segs r r₁ run) (hmore : Received segs r₁ r₂ more) :
    Received segs r r₂ (run ++ more) := by
  refine ⟨h.passes.trans hmore.passes, fun seg hseg => ?_⟩
  rw [List.append_assoc] at hseg
  rcases List.mem_append.mp hseg with hold | hnew
  · exact h.new seg (List.mem_append_left _ hold)
  · exact (hmore.new seg hnew).elim (fun hbuf => h.new seg (List.mem_append_right _ hbuf)) Or.inr

/-- A segment moves a run to the queue, and the rest stays in the buffer. -/
theorem ikcpInputSeg_received {st : InputState} (h : st.kcp.receiveSide.Inv)
    {segs : List IKCPSEG} {seg : IKCPSEG} (hmem : seg ∈ segs) :
    ∃ run, Received segs st.kcp.receiveSide (ikcpInputSeg st seg).kcp.receiveSide run := by
  rcases ikcpInputSeg_receiveSide st seg with hsame | ⟨hpush, kcp, hkcp, heq⟩
  · rw [hsame]
    exact ⟨[], .refl segs _⟩
  · obtain ⟨moved, hpasses, hstored⟩ := ikcpInputPush_passes (hkcp ▸ h) seg
    rw [heq, ← hkcp]
    refine ⟨moved, hpasses, fun x hx => ((hstored x).mp hx).imp_right ?_⟩
    rintro ⟨rfl, -⟩
    exact ⟨hmem, hpush⟩

/-- What a datagram has moved to the queue. -/
theorem ikcpInput_received {kcp : IKCPCB} (h : kcp.receiveSide.Inv) (data : List UInt8) :
    ∃ run, Received (ikcpSegments data.length kcp.conv data).2.1 kcp.receiveSide
      (ikcpInput kcp data).2.receiveSide run := by
  refine (ikcpInput_induct (P := fun kcp' => kcp'.receiveSide.Inv ∧
    ∃ run, Received (ikcpSegments data.length kcp.conv data).2.1 kcp.receiveSide
      kcp'.receiveSide run) data ⟨h, [], .refl _ _⟩ ?_ ?_).2
  · rintro st seg hseg ⟨hinv, run, hrun⟩
    obtain ⟨more, hmore⟩ := ikcpInputSeg_received hinv hseg
    exact ⟨ikcpInputSeg_receiveSide_inv hinv seg, run ++ more, hrun.trans hmore⟩
  · rintro st ⟨hinv, run, hrun⟩
    have hside := (ikcpInputEnd_sides st kcp.sndUna).2
    exact ⟨hside.symm ▸ hinv, run, hside.symm ▸ hrun⟩

/-- A datagram completes no message with the segments before one that is refused. -/
def IKCPCB.CutsNone (kcp : IKCPCB) (data : List UInt8) : Prop :=
  (ikcpSegments data.length kcp.conv data).1 < 0 →
    ¬ kcp.Completes (ikcpSegments data.length kcp.conv data).2.1

/-- Nothing can be read after such a datagram if it is refused. -/
theorem IKCPCB.CutsNone.refused {kcp : IKCPCB} {data : List UInt8} (hcuts : kcp.CutsNone data)
    (h : kcp.receiveSide.Inv) (hpeek : ikcpPeeksize kcp < 0)
    (hrefused : (ikcpInput kcp data).1 < 0) : ikcpPeeksize (ikcpInput kcp data).2 < 0 := by
  have hinv := ikcpInput_receiveSide_inv h data
  have hwnd := congrArg Config.rcvWnd (ikcpInput_config kcp data)
  by_cases hshort : ikcpIntLen data < ikcpOverhead
  · rwa [ikcpInput_eq, if_pos hshort]
  have hrc := ((ikcpInput_neg_iff kcp data).mp hrefused).resolve_left hshort
  apply ikcpPeeksize_of_not_complete hinv
  obtain ⟨run, hrun⟩ := ikcpInput_received h data
  intro hcomplete
  have hqueue := hrun.passes.queue_eq
  have hle := hinv.nque_le
  rw [hqueue] at hle
  refine hcuts hrc ⟨run, hrun.passes.consecutive,
    fun seg hseg => hrun.new seg (List.mem_append_left _ hseg), ?_, hqueue ▸ hcomplete⟩
  exact hle.trans_eq (congrArg UInt32.toNat hwnd)

/-- Nothing is left to read. -/
def KCPSession.ReadOut (s : KCPSession) : Prop := s.closed = true ∨ ikcpPeeksize s.kcp < 0

instance (s : KCPSession) : Decidable s.ReadOut := inferInstanceAs (Decidable (_ ∨ _))

/-- A task whose packet, if it is refused, completes no message. -/
def SessionTask.CutsNone (s : KCPSession) : SessionTask → Prop
  | .packet received _ _ => s.kcp.CutsNone received.remainingData
  | _ => True

namespace KCPSession

/-- What leaves the receiving half alone leaves nothing to read. -/
theorem ReadOut.of_passage {s s' : KCPSession} (h : s.ReadOut) (hpassage : Passage s s')
    (hside : s'.kcp.readSide = s.kcp.readSide) : s'.ReadOut := by
  rcases h with hclosed | hpeek
  · exact Or.inl (hpassage.frozen hclosed).1
  · exact Or.inr (by rwa [ikcpPeeksize_congr hside])

/-- A timer task leaves the read side. -/
theorem updateConnectionState_readSide (s : KCPSession) (currentMs : UInt32) :
    (s.updateConnectionState currentMs).kcp.readSide = s.kcp.readSide := by
  unfold updateConnectionState
  split
  · rfl
  split
  · exact close_readSide s false currentMs
  · exact flushed_readSide s currentMs

/-- A packet that cuts no message leaves the session read out. -/
theorem ReadOut.packet {s : KCPSession} (h : s.ReadOut) (hinv : s.kcp.Inv)
    {received : KCPReceivedPacket} (hcuts : s.kcp.CutsNone received.remainingData)
    (peerAddress : InetAddress) (calls : List (List UserCall)) :
    (s.processPacketInLoopThread received peerAddress calls).ReadOut := by
  by_cases hrefused : (ikcpInput s.kcp received.remainingData).1 < 0
  · unfold processPacketInLoopThread
    split
    · exact h
    · rename_i hopen
      simp only [if_pos hrefused]
      exact Or.inr (hcuts.refused hinv.receive (h.resolve_left hopen) hrefused)
  · exact s.processPacketInLoopThread_done received peerAddress calls (not_lt.mp hrefused)

/-- So does any task under that condition on its packet. -/
theorem ReadOut.run {s : KCPSession} (h : s.ReadOut) (hinv : s.kcp.Inv) {task : SessionTask}
    (hcuts : task.CutsNone s) : (task.run s).ReadOut := by
  cases task with
  | call userCall => exact h.of_passage (Passage.call s userCall) (call_readSide s userCall)
  | update currentMs =>
      exact h.of_passage (Passage.updateConnectionState s currentMs)
        (updateConnectionState_readSide s currentMs)
  | packet received peerAddress calls => exact h.packet hinv hcuts peerAddress calls

/-- A fresh session is read out. -/
theorem ReadOut.start {sessionId : UInt32} {peerAddress : InetAddress} {params : Params}
    {callbacks : SessionCallbacks} {calls : List UserCall} {s : KCPSession}
    (h : initializeWith sessionId peerAddress params callbacks calls = some s) :
    s.ReadOut ∧ s.kcp.Inv := by
  obtain ⟨kcp, hkcp, hsteps⟩ := initializeWith_steps h
  refine ⟨Or.inr ?_, ((hsteps fun _ => False).inv (initializeControl_inv hkcp)).1⟩
  have hle := (hsteps fun _ => False).unread_le
  have hside := (initializeControl_spec hkcp).receiveSide_eq
  have hzero : kcp.unread = 0 := by
    rw [IKCPCB.unread, hside]
    rfl
  apply ikcpPeeksize_nil
  apply List.eq_nil_of_length_eq_zero
  have hsum : s.kcp.rcvQueue.length + s.kcp.rcvBuf.length ≤ 0 := hle.trans hzero.le
  omega

end KCPSession

/-- In every run in which no datagram that is refused completes a message with the segments before
the refused one, an open session has nothing left to read after any task. -/
theorem readOut_of_cutsNone (sessionId : UInt32) (peerAddress : InetAddress) (params : Params)
    (callbacks : SessionCallbacks) (calls : List UserCall) (tasks : List SessionTask)
    (s : KCPSession)
    (hstart : KCPSession.initializeWith sessionId peerAddress params callbacks calls = some s)
    (hcuts : Along SessionTask.run (fun s task => task.CutsNone s) s tasks) :
    (tasks.foldl SessionTask.run s).closed = true ∨
      ikcpPeeksize (tasks.foldl SessionTask.run s).kcp < 0 := by
  have hrun := hcuts.invariant (I := fun s => s.ReadOut ∧ s.kcp.Inv) ?_
    (KCPSession.ReadOut.start hstart)
  · exact hrun.1
  · intro s task hcut hs
    have harrives : task.Arrives fun _ => True := by
      cases task <;> exact trivial
    exact ⟨hs.1.run hs.2 hcut, ((task.run_steps s harrives).inv hs.2).1⟩

/-- The greeting, and a segment of another conversation behind it. -/
def cutPush : KCPReceivedPacket :=
  { data := greetingPush.data ++ IKCPSEG.wire { conv := 8, cmd := ikcpCmdPush, wnd := 128 } }

/-- A fresh session reads the greeting out. -/
theorem readOut_of_cutsNone_greetingPush :
    ∃ s, KCPSession.initializeWith 7 ⟨"10.0.0.1:9000"⟩ sessionParams {} [] = some s ∧
      ((SessionTask.packet greetingPush ⟨"10.0.0.1:9000"⟩ []).run s).ReadOut := by
  have hrun : (KCPSession.initializeWith 7 ⟨"10.0.0.1:9000"⟩ sessionParams {} []).map
      (fun s => (ikcpSegments greetingPush.remainingData.length s.kcp.conv
        greetingPush.remainingData).1) = some 0 := by
    decide +kernel
  obtain ⟨s, hstart, hrc⟩ := Option.map_eq_some_iff.mp hrun
  refine ⟨s, hstart, ?_⟩
  refine readOut_of_cutsNone 7 ⟨"10.0.0.1:9000"⟩ sessionParams {} []
    [.packet greetingPush ⟨"10.0.0.1:9000"⟩ []] s hstart ⟨fun hneg => ?_, trivial⟩
  rw [hrc] at hneg
  exact absurd hneg (lt_irrefl 0)

/-- The greeting is complete and stays in the queue of the open session. -/
theorem not_readOut_cutPush :
    ∃ s, KCPSession.initializeWith 7 ⟨"10.0.0.1:9000"⟩ sessionParams {} [] = some s ∧
      ((SessionTask.packet cutPush ⟨"10.0.0.1:9000"⟩ []).run s).closed = false ∧
      ikcpPeeksize ((SessionTask.packet cutPush ⟨"10.0.0.1:9000"⟩ []).run s).kcp = 3 := by
  have hrun : (KCPSession.initializeWith 7 ⟨"10.0.0.1:9000"⟩ sessionParams {} []).map
      (fun s =>
        let s' := (SessionTask.packet cutPush ⟨"10.0.0.1:9000"⟩ []).run s
        (s'.closed, ikcpPeeksize s'.kcp)) = some (false, 3) := by
    decide +kernel
  obtain ⟨s, hstart, hstate⟩ := Option.map_eq_some_iff.mp hrun
  exact ⟨s, hstart, Prod.mk.inj hstate⟩

end CodeBlocks.Kcp
