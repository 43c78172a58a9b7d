import CodeBlocks.Kcp.Invariant.Receive

/-!
# Settings that no call changes

Conversation number, sizes and windows are written by `KCPSession::Initialize`
only. Every later call leaves them as they were configured.
-/

namespace CodeBlocks.Kcp

/-- The settings of a control block. -/
structure Config where
  conv : UInt32
  mtu : UInt32
  mss : UInt32
  headRoom : UInt32
  sndWnd : UInt32
  sndHghwat : UInt32
  rcvWnd : UInt32
  interval : UInt32
  nodelay : UInt32
  rxMinrto : Int32
  deadLink : UInt32
  fastresend : Int32
  fastlimit : Int32
  nocwnd : Int32
  stream : Int32

def IKCPCB.config (kcp : IKCPCB) : Config where
  conv := kcp.conv
  mtu := kcp.mtu
  mss := kcp.mss
  headRoom := kcp.headRoom
  sndWnd := kcp.sndWnd
  sndHghwat := kcp.sndHghwat
  rcvWnd := kcp.rcvWnd
  interval := kcp.interval
  nodelay := kcp.nodelay
  rxMinrto := kcp.rxMinrto
  deadLink := kcp.deadLink
  fastresend := kcp.fastresend
  fastlimit := kcp.fastlimit
  nocwnd := kcp.nocwnd
  stream := kcp.stream

/-- Writing changes no setting. -/
theorem ikcpWrite_config (kcp : IKCPCB) (data : List UInt8) (alwaysStream : Bool) :
    (ikcpWrite kcp data alwaysStream).2.config = kcp.config := by
  simp only [ikcpWrite]
  repeat' split
  all_goals rfl

/-- Neither does moving to the queue. -/
theorem ikcpMove_config (kcp : IKCPCB) : (ikcpMove kcp).config = kcp.config := by
  have hloop (buf : List IKCPSEG) (k : IKCPCB) : (ikcpMoveLoop buf k).config = k.config := by
    induction buf generalizing k with
    | nil => rfl
    | cons seg buf ih =>
        unfold ikcpMoveLoop
        split
        · exact ih _
        · rfl
  exact hloop _ _

/-- Neither does reading. -/
theorem ikcpRecv_config (kcp : IKCPCB) (len : Int32) :
    (ikcpRecv kcp len).kcp.config = kcp.config := by
  have hrecover (k : IKCPCB) (b : Bool) : (ikcpRecover k b).config = k.config := by
    unfold ikcpRecover
    split <;> rfl
  rcases ikcpRecv_cases kcp len with ⟨_, _, heq⟩ | ⟨_, _, recover, heq⟩
  · rw [heq]
  · rw [heq, hrecover, ikcpMove_config]
    split <;> rfl

/-- Neither does storing a PUSH segment. -/
theorem ikcpInputPush_config (kcp : IKCPCB) (seg : IKCPSEG) :
    (ikcpInputPush kcp seg).config = kcp.config := by
  have hparse (k : IKCPCB) : (ikcpParseData k seg).config = k.config := by
    unfold ikcpParseData
    split
    · rfl
    · split <;> exact ikcpMove_config _
  unfold ikcpInputPush
  split
  · simp only
    split
    · exact hparse _
    · rfl
  · rfl

/-- Neither does one segment of a datagram. -/
theorem ikcpInputSeg_config (st : InputState) (seg : IKCPSEG) :
    (ikcpInputSeg st seg).kcp.config = st.kcp.config := by
  have hshrink (k : IKCPCB) : (ikcpShrinkBuf k).config = k.config := by
    unfold ikcpShrinkBuf
    split <;> rfl
  have hack (k : IKCPCB) (sn : UInt32) : (ikcpParseAck k sn).config = k.config := by
    unfold ikcpParseAck
    split <;> rfl
  have hcommon : (ikcpInputCommon st.kcp seg).config = st.kcp.config := hshrink _
  have hinput (s : InputState) : (ikcpInputAck s seg).kcp.config = s.kcp.config := by
    unfold ikcpInputAck
    cases s.maxack <;> simp only [hshrink, hack] <;> split <;> rfl
  unfold ikcpInputSeg
  split
  · rw [hinput]
    exact hcommon
  split
  · rw [← hcommon]
    exact ikcpInputPush_config _ seg
  split
  · exact hcommon
  · exact hcommon

/-- Neither does the end of a datagram. -/
theorem ikcpInputEnd_config (st : InputState) (prevUna : UInt32) :
    (ikcpInputEnd st prevUna).config = st.kcp.config := by
  have hcwnd (k : IKCPCB) : (ikcpUpdateCwnd k prevUna).config = k.config := by
    simp only [ikcpUpdateCwnd]
    repeat' split
    all_goals rfl
  rw [ikcpInputEnd, hcwnd]
  cases st.maxack with
  | none => rfl
  | some maxack =>
      simp only [ikcpParseFastack]
      split <;> rfl

/-- The loop of `ikcp_input` lets the segments of the grammar take effect in
order, and ends with the grammar's return code. -/
theorem ikcpInputLoop_eq (fuel : Nat) (st : InputState) (data : List UInt8) :
    ikcpInputLoop fuel st data =
      ((ikcpSegments fuel st.kcp.conv data).1,
        (ikcpSegments fuel st.kcp.conv data).2.1.foldl ikcpInputSeg st) := by
  induction fuel generalizing st data with
  | zero => rfl
  | succ fuel ih =>
      rw [ikcpInputLoop, ikcpSegments]
      split
      · rfl
      cases hread : ikcpReadSeg st.kcp.conv data with
      | error rc => rfl
      | ok read =>
          obtain ⟨seg, rest⟩ := read
          have hconv : (ikcpInputSeg st seg).kcp.conv = st.kcp.conv :=
            congrArg Config.conv (ikcpInputSeg_config st seg)
          simp only [ih, hconv, List.foldl_cons]

/-- What `ikcp_input` leaves, in terms of the segments it accepted. -/
theorem ikcpInput_eq (kcp : IKCPCB) (data : List UInt8) :
    ikcpInput kcp data =
      if ikcpIntLen data < ikcpOverhead then (-1, kcp)
      else
        let (rc, segs, _) := ikcpSegments data.length kcp.conv data
        let st := segs.foldl ikcpInputSeg ⟨kcp, none⟩
        if rc < 0 then (rc, st.kcp) else (0, ikcpInputEnd st kcp.sndUna) := by
  unfold ikcpInput
  split
  · rfl
  · rw [ikcpInputLoop_eq]

/-- A property that accepted segments and the end of a datagram preserve holds
after `ikcp_input`, whatever the bytes are. -/
theorem ikcpInput_induct {P : IKCPCB → Prop} {kcp : IKCPCB} (data : List UInt8) (h : P kcp)
    (hseg : ∀ st seg, seg ∈ (ikcpSegments data.length kcp.conv data).2.1 →
      P st.kcp → P (ikcpInputSeg st seg).kcp)
    (hend : ∀ st, P st.kcp → P (ikcpInputEnd st kcp.sndUna)) : P (ikcpInput kcp data).2 := by
  have hfold : P ((ikcpSegments data.length kcp.conv data).2.1.foldl ikcpInputSeg
      ⟨kcp, none⟩).kcp :=
    List.foldlRecOn (motive := fun st : InputState => P st.kcp) _ ikcpInputSeg h
      fun st hst seg hmem => hseg st seg hmem hst
  rw [ikcpInput_eq]
  split
  · exact h
  simp only
  split
  · exact hfold
  · exact hend _ hfold

/-- Neither does a whole datagram. -/
theorem ikcpInput_config (kcp : IKCPCB) (data : List UInt8) :
    (ikcpInput kcp data).2.config = kcp.config := by
  refine ikcpInput_induct (P := fun k => k.config = kcp.config) data rfl ?_ ?_
  · intro st seg _ hst
    rw [ikcpInputSeg_config, hst]
  · intro st hst
    rw [ikcpInputEnd_config, hst]

end CodeBlocks.Kcp
