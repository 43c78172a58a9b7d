import CodeBlocks.Kcp.Session.Messages

/-!
# Sessions that no packet aborts

A message without bytes makes `OnReadEvent` assert. Whether a packet makes one
readable can be told from the session before it and the segments in it: the
segments that the receiver keeps, read one message after another behind those
that wait in its queue.
-/

namespace CodeBlocks.Kcp

/-- No step changes the settings of the control block. -/
theorem SessionStep.config {arrives : List UInt8 → Prop} {s s' : KCPSession} {p p' : List UInt8}
    (hstep : SessionStep arrives (s, p) (s', p')) : s'.kcp.config = s.kcp.config := by
  cases hstep with
  | enqueue _ taken _ alwaysStream => exact ikcpWrite_config s.kcp taken alwaysStream
  | refuse _ taken _ alwaysStream => exact ikcpWrite_config s.kcp taken alwaysStream
  | flush _ _ currentMs => exact ikcpFlush_config s.kcp currentMs
  | input _ data _ => exact ikcpInput_config s.kcp data
  | receive _ size hsize =>
      rw [(s.receive_spec size).1]
      exact ikcpRecv_config s.kcp _
  | _ => rfl

/-- Every step keeps the invariant of the control block. -/
theorem SessionStep.inv {arrives : List UInt8 → Prop} {s s' : KCPSession} {p p' : List UInt8}
    (hstep : SessionStep arrives (s, p) (s', p')) (h : s.kcp.Inv) : s'.kcp.Inv := by
  have hwrite (data : List UInt8) (alwaysStream : Bool) :
      (ikcpWrite s.kcp data alwaysStream).2.Inv := by
    cases alwaysStream with
    | true => exact ControlCall.run_inv h (.append data)
    | false => exact ControlCall.run_inv h (.send data)
  cases hstep with
  | enqueue _ taken _ alwaysStream => exact hwrite taken alwaysStream
  | refuse _ taken _ alwaysStream => exact hwrite taken alwaysStream
  | flush _ _ currentMs => exact ControlCall.run_inv h (.flush currentMs)
  | input _ data _ => exact ControlCall.run_inv h (.input data)
  | receive _ size _ =>
      rw [(s.receive_spec size).1]
      exact ControlCall.run_inv h (.recv _)
  | _ => exact h

/-- The invariant and the settings along any steps. -/
theorem SessionSteps.inv {arrives : List UInt8 → Prop} {c c' : KCPSession × List UInt8}
    (hsteps : SessionSteps arrives c c') (h : c.1.kcp.Inv) :
    c'.1.kcp.Inv ∧ c'.1.kcp.config = c.1.kcp.config := by
  refine hsteps.preserves (P := fun s _ => s.kcp.Inv ∧ s.kcp.config = c.1.kcp.config) ?_ ⟨h, rfl⟩
  intro s p s' p' hstep hs
  exact ⟨hstep.inv hs.1, hstep.config.trans hs.2⟩

/-- Segments have moved on as far as they can after every step. -/
theorem SessionStep.moved {arrives : List UInt8 → Prop} {s s' : KCPSession} {p p' : List UInt8}
    (hstep : SessionStep arrives (s, p) (s', p')) (h : s.kcp.Inv)
    (hmoved : s.kcp.receiveSide.Moved) : s'.kcp.receiveSide.Moved := by
  cases hstep with
  | enqueue _ taken _ alwaysStream =>
      exact (ikcpWrite_receiveSide s.kcp taken alwaysStream).symm ▸ hmoved
  | refuse _ taken _ alwaysStream =>
      exact (ikcpWrite_receiveSide s.kcp taken alwaysStream).symm ▸ hmoved
  | flush _ _ currentMs => exact (ikcpFlush_receiveSide s.kcp currentMs).symm ▸ hmoved
  | input _ data _ => exact ikcpInput_moved h.receive hmoved data
  | receive _ size _ =>
      rw [(s.receive_spec size).1]
      exact ikcpRecv_moved h.receive hmoved _
  | _ => exact hmoved

/-- The receive queue stays filled as far as it goes. -/
theorem SessionSteps.moved {arrives : List UInt8 → Prop} {c c' : KCPSession × List UInt8}
    (hsteps : SessionSteps arrives c c') (h : c.1.kcp.Inv)
    (hmoved : c.1.kcp.receiveSide.Moved) : c'.1.kcp.Inv ∧ c'.1.kcp.receiveSide.Moved := by
  refine hsteps.preserves (P := fun s _ => s.kcp.Inv ∧ s.kcp.receiveSide.Moved) ?_ ⟨h, hmoved⟩
  exact fun s p s' p' hstep hs => ⟨hstep.inv hs.1, hstep.moved hs.1 hs.2⟩

/-- In every state that a session reaches. -/
theorem SessionTask.moved_run {sessionId : UInt32} {peerAddress : InetAddress} {params : Params}
    {callbacks : SessionCallbacks} {calls : List UserCall} {s : KCPSession}
    (hstart : KCPSession.initializeWith sessionId peerAddress params callbacks calls = some s)
    (tasks : List SessionTask) :
    (tasks.foldl SessionTask.run s).kcp.Inv ∧
      (tasks.foldl SessionTask.run s).kcp.receiveSide.Moved := by
  apply List.foldlRecOn (motive := fun s : KCPSession => s.kcp.Inv ∧ s.kcp.receiveSide.Moved)
  · obtain ⟨kcp, hkcp, hsteps⟩ := KCPSession.initializeWith_steps hstart
    have hside := (initializeControl_spec hkcp).receiveSide_eq
    have hmoved : kcp.receiveSide.Moved := by
      rw [hside]
      exact Or.inr fun seg hseg => absurd hseg List.not_mem_nil
    exact (hsteps fun _ => False).moved (initializeControl_inv hkcp) hmoved
  · intro s hs task _
    have harrives : task.Arrives fun _ => True := by
      cases task <;> exact trivial
    exact (task.run_steps s harrives).moved hs.1 hs.2

/-- The packet is refused, or none of the messages that can be read once its segments have come is
empty. -/
def KCPSession.NoEmptyMessage (s : KCPSession) (packet : KCPReceivedPacket) : Prop :=
  s.kcp.Refuses packet.remainingData ∨
    ∀ run message, s.kcp.Follows
        (ikcpSegments packet.remainingData.length s.kcp.conv packet.remainingData).2.1 run →
      Readable s.kcp.rcvWnd.toNat (s.kcp.rcvQueue ++ run) message →
        ikcpIntLen (payload message) ≠ 0

/-- The messages that the receive loop reads after a packet. -/
theorem KCPSession.noEmptyMessage_iff {s : KCPSession} (h : s.kcp.Inv)
    (hmoved : s.kcp.receiveSide.Moved) (packet : KCPReceivedPacket) :
    s.NoEmptyMessage packet ↔ (ikcpInput s.kcp packet.remainingData).1 < 0 ∨
      0 ∉ ikcpReadSizes (ikcpInput s.kcp packet.remainingData).2.unread
        (ikcpInput s.kcp packet.remainingData).2 := by
  unfold NoEmptyMessage
  rw [ikcpInput_neg_iff]
  by_cases hrefused : s.kcp.Refuses packet.remainingData
  · exact ⟨fun _ => Or.inl hrefused, fun _ => Or.inl hrefused⟩
  obtain ⟨moved, hintake⟩ := ikcpInput_intake h.receive hmoved hrefused
  have hwnd : (ikcpInput s.kcp packet.remainingData).2.rcvWnd = s.kcp.rcvWnd :=
    hintake.passes.wnd_eq
  rw [or_iff_right hrefused, or_iff_right hrefused,
    mem_ikcpReadSizes_iff hintake.inv hintake.front le_rfl, hwnd]
  constructor
  · rintro hfull ⟨message, hreadable, hzero⟩
    rw [← hintake.inOrder_eq hintake.follows] at hreadable
    exact hfull _ message hintake.follows hreadable hzero
  · intro hfull run message hrun hreadable hzero
    rw [hintake.inOrder_eq hrun] at hreadable
    exact hfull ⟨message, hreadable, hzero⟩

/-- In every state that a session reaches while it is open, a packet neither hangs nor aborts it
exactly when none of the messages that it makes readable is empty. -/
theorem packet_survived_iff (sessionId : UInt32) (peerAddress : InetAddress) (params : Params)
    (callbacks : SessionCallbacks) (calls : List UserCall) (tasks : List SessionTask)
    (s : KCPSession)
    (hstart : KCPSession.initializeWith sessionId peerAddress params callbacks calls = some s)
    (hopen : (tasks.foldl SessionTask.run s).closed = false) (packet : KCPReceivedPacket) :
    (tasks.foldl SessionTask.run s).Survives packet ↔
      (tasks.foldl SessionTask.run s).NoEmptyMessage packet := by
  obtain ⟨hinv, hmoved⟩ := SessionTask.moved_run hstart tasks
  rw [KCPSession.survives_iff hopen, KCPSession.noEmptyMessage_iff hinv hmoved]

/-- The first segment of a conversation, with three bytes of payload. -/
def greetingSeg : IKCPSEG := { conv := 7, cmd := ikcpCmdPush, wnd := 128, data := [1, 2, 3] }

/-- One pushed segment with three bytes of payload. -/
def greetingPush : KCPReceivedPacket := { data := greetingSeg.wire }

/-- A fresh session survives the greeting. -/
theorem packet_survived_greetingPush :
    ∃ s, KCPSession.initializeWith 7 ⟨"10.0.0.1:9000"⟩ sessionParams {} [] = some s ∧
      s.Survives greetingPush := by
  have hrun : (KCPSession.initializeWith 7 ⟨"10.0.0.1:9000"⟩ sessionParams {} []).map
      (fun s => (s.closed, s.kcp.conv, s.kcp.rcvNxt, s.kcp.rcvWnd,
        s.kcp.rcvQueue ++ s.kcp.rcvBuf)) = some (false, 7, 0, 128, []) := by
    decide +kernel
  have hsegs : (ikcpSegments greetingPush.remainingData.length 7
      greetingPush.remainingData).2.1 = [greetingSeg] := by
    decide +kernel
  obtain ⟨s, hstart, hstate⟩ := Option.map_eq_some_iff.mp hrun
  simp only [Prod.mk.injEq] at hstate
  obtain ⟨hopen, hconv, hnxt, hwnd, hheld⟩ := hstate
  obtain ⟨hqueue, hbuf⟩ := List.append_eq_nil_iff.mp hheld
  refine ⟨s, hstart, (packet_survived_iff 7 ⟨"10.0.0.1:9000"⟩ sessionParams {} [] [] s hstart hopen
    greetingPush).mpr (Or.inr ?_)⟩
  intro run message hfollows hreadable
  change s.kcp.Follows _ run at hfollows
  change Readable s.kcp.rcvWnd.toNat (s.kcp.rcvQueue ++ run) message at hreadable
  rw [show (List.foldl SessionTask.run s []).kcp.conv = 7 from hconv, hsegs] at hfollows
  rw [hwnd, hqueue, List.nil_append] at hreadable
  have hkept : ∀ seg ∈ run, seg = greetingSeg := by
    intro seg hseg
    rcases hfollows.kept seg hseg with hmem | ⟨-, before, after, hsplit, -⟩
    · rw [hbuf] at hmem
      cases hmem
    · have hmem : seg ∈ [greetingSeg] := hsplit ▸ List.mem_append_right before List.mem_cons_self
      exact List.mem_singleton.mp hmem
  -- a second segment would carry the number after that of the greeting
  have hshort : run = [] ∨ run = [greetingSeg] := by
    rcases run with _ | ⟨first, _ | ⟨second, rest⟩⟩
    · exact Or.inl rfl
    · rw [hkept first List.mem_cons_self]
      exact Or.inr rfl
    · have hsn := hfollows.consecutive.2.1
      rw [hkept second (by simp), hnxt] at hsn
      exact absurd hsn (by decide)
  have hnone (next : List IKCPSEG) : ¬ Readable 128 [] next := by
    intro h
    cases h with
    | front hfront => exact hfront.complete
    | behind hfront _ => exact hfront.complete
  rcases hshort with rfl | rfl
  · exact absurd hreadable (hnone message)
  · cases hreadable with
    | front hfront =>
        rw [hfront.message_eq]
        decide
    | behind hfront hnext =>
        rw [hfront.message_eq] at hnext
        exact absurd hnext (hnone message)

/-- One pushed segment without payload, as the first of its conversation. -/
def emptyPush : KCPReceivedPacket :=
  { data := ikcpEncodeSeg { conv := 7, cmd := ikcpCmdPush, wnd := 128 } }

/-- An empty PUSH in order is not. -/
theorem not_survives_emptyPush :
    ∃ s, KCPSession.initializeWith 7 ⟨"10.0.0.1:9000"⟩ sessionParams {} [] = some s ∧
      s.closed = false ∧ ¬ s.Survives emptyPush := by
  have hrun : (KCPSession.initializeWith 7 ⟨"10.0.0.1:9000"⟩ sessionParams {} []).map
      (fun s => (s.closed, (s.packetReads emptyPush ⟨"10.0.0.1:9000"⟩ []).map RecvResult.rc)) =
        some (false, [0]) := by
    decide +kernel
  obtain ⟨s, hstart, hreads⟩ := Option.map_eq_some_iff.mp hrun
  obtain ⟨hopen, hsizes⟩ := Prod.mk.inj hreads
  refine ⟨s, hstart, hopen, fun h => ?_⟩
  obtain ⟨result, hmem, hzero⟩ := List.mem_map.mp (hsizes ▸ List.mem_singleton_self (0 : Int))
  have hpos := (h.asserts _ [] result hmem).2
  omega

end CodeBlocks.Kcp
