import CodeBlocks.Kcp.Invariant.Write
import CodeBlocks.Kcp.Invariant.Input
import CodeBlocks.Kcp.Invariant.Flush

/-!
# Every reachable control block is consistent

`KCPSession::Initialize` establishes the invariants of both halves, and each
call keeps them, whatever bytes, lengths and clock values it is given.
-/

namespace CodeBlocks.Kcp

open Serial

/-- The joint invariant, with the size equation that `ikcp_setmtu` and
`ikcp_set_head_room` establish. -/
structure IKCPCB.Inv (kcp : IKCPCB) : Prop where
  send : kcp.sendSide.Inv
  receive : kcp.receiveSide.Inv
  mss_pos : 0 < kcp.mss.toNat
  size_eq : kcp.headRoom.toNat + ikcpOverhead + kcp.mss.toNat = kcp.mtu.toNat
  mtu_lt : kcp.mtu.toNat < 2 ^ 31

private theorem toNat_lt_of_pos {x : Int32} (h : x > 0) : x.toUInt32.toNat < 2 ^ 31 := by
  have hx : (0 : Int32).toInt < x.toInt := Int32.lt_iff_toInt_lt.mp h
  have hn : x.toInt = x.toUInt32.toInt32.toInt := rfl
  rw [Int32.toInt_zero, hn, Serial.toInt_toInt32] at hx
  have := x.toUInt32.toNat_lt
  split at hx <;> omega

private theorem rcvWnd_lt (wnd : UInt32) (rcvwnd : Int32) (h : wnd.toNat < 2 ^ 31) :
    (if rcvwnd > 0 then imax rcvwnd.toUInt32 ikcpWndRcv else wnd).toNat < 2 ^ 31 := by
  split
  · rename_i hpos
    unfold imax
    split
    · exact toNat_lt_of_pos hpos
    · decide
  · exact h

private theorem toNat_of_le {x : Int32} (h : ¬ x < 50) :
    50 ≤ x.toUInt32.toNat ∧ x.toUInt32.toNat < 2 ^ 31 := by
  have hx := mt Int32.lt_iff_toInt_lt.mpr h
  have hn : x.toInt = x.toUInt32.toInt32.toInt := rfl
  have h50 : (50 : Int32).toInt = 50 := rfl
  rw [h50, hn, Serial.toInt_toInt32] at hx
  have := x.toUInt32.toNat_lt
  split at hx <;> omega

/-- `ikcp_setmtu` refuses, or sets the sizes. -/
theorem ikcpSetmtu_cases (kcp : IKCPCB) (mtu : Int32) :
    (ikcpSetmtu kcp mtu).1 < 0 ∨
      ¬ mtu < 50 ∧ ∃ incr, ikcpSetmtu kcp mtu = (0, { kcp with
        mtu := mtu.toUInt32
        mss := mtu.toUInt32 - kcp.headRoom - UInt32.ofNat ikcpOverhead
        incr := incr }) := by
  unfold ikcpSetmtu
  by_cases hsmall : mtu < 50 ∨ mtu < Int32.ofNat ikcpOverhead
  · exact Or.inl (by simp [hsmall])
  rw [if_neg hsmall]
  by_cases hroom : mtu < kcp.headRoom.toInt32
  · exact Or.inl (by simp [hroom])
  rw [if_neg hroom]
  exact Or.inr ⟨fun hlt => hsmall (Or.inl hlt), _, rfl⟩

/-- `ikcp_set_head_room` refuses, or takes the room off the segment size. -/
theorem ikcpSetHeadRoom_cases (kcp : IKCPCB) (headRoom : UInt32) :
    (ikcpSetHeadRoom kcp headRoom).1 < 0 ∨
      headRoom < kcp.mss ∧ ikcpSetHeadRoom kcp headRoom =
        (0, { kcp with headRoom := headRoom, mss := kcp.mss - headRoom }) := by
  unfold ikcpSetHeadRoom
  by_cases hroom : headRoom ≥ kcp.mss
  · exact Or.inl (by simp [hroom])
  · rw [if_neg hroom]
    exact Or.inr ⟨UInt32.not_le.mp hroom, rfl⟩

/-- The five settings of `ikcp_nodelay`. -/
theorem ikcpNodelay_form (kcp : IKCPCB) (nodelay interval resend nc : Int32) :
    ∃ nodelay' fastresend nocwnd, ikcpNodelay kcp nodelay interval resend nc =
      { kcp with
        nodelay := nodelay', fastresend, nocwnd
        rxMinrto := if nodelay ≥ 0 then
            if nodelay ≠ 0 then ikcpRtoNdl.toInt32 else ikcpRtoMin.toInt32
          else kcp.rxMinrto
        interval := if interval ≥ 0 then
            if interval > 5000 then 5000 else if interval < 10 then 10 else interval.toUInt32
          else kcp.interval } := by
  refine ⟨if nodelay ≥ 0 then nodelay.toUInt32 else kcp.nodelay,
    if resend ≥ 0 then resend else kcp.fastresend, if nc ≥ 0 then nc else kcp.nocwnd, ?_⟩
  unfold ikcpNodelay
  by_cases hnodelay : nodelay ≥ 0 <;> by_cases hinterval : interval ≥ 0 <;>
    by_cases hresend : resend ≥ 0 <;> by_cases hnc : nc ≥ 0 <;>
    simp only [hnodelay, hinterval, hresend, hnc, if_true, if_false]

/-- `ikcp_nodelay` changes timing only. -/
theorem ikcpNodelay_sides (kcp : IKCPCB) (nodelay interval resend nc : Int32) :
    (ikcpNodelay kcp nodelay interval resend nc).sendSide = kcp.sendSide ∧
      (ikcpNodelay kcp nodelay interval resend nc).receiveSide = kcp.receiveSide ∧
      (ikcpNodelay kcp nodelay interval resend nc).headRoom = kcp.headRoom ∧
      (ikcpNodelay kcp nodelay interval resend nc).mtu = kcp.mtu := by
  obtain ⟨_, _, _, heq⟩ := ikcpNodelay_form kcp nodelay interval resend nc
  rw [heq]
  exact ⟨rfl, rfl, rfl, rfl⟩

/-- What `KCPSession::Initialize` leaves in the fields that the invariant reads. -/
structure Initialized (sessionId : UInt32) (params : Params) (kcp : IKCPCB) : Prop where
  mtu_ge : ¬ params.mtu < 50
  headRoom_lt : params.headRoom.toUInt32 < params.mtu.toUInt32 - UInt32.ofNat ikcpOverhead
  mtu_eq : kcp.mtu = params.mtu.toUInt32
  headRoom_eq : kcp.headRoom = params.headRoom.toUInt32
  sendSide_eq : kcp.sendSide = {
    conv := sessionId
    mss := params.mtu.toUInt32 - UInt32.ofNat ikcpOverhead - params.headRoom.toUInt32
    una := 0
    nxt := 0
    wnd := if params.sndWnd > 0 then params.sndWnd.toUInt32 else ikcpWndSnd
    rmt := ikcpWndRcv
    queue := []
    nque := 0
    buf := []
    nbuf := 0 }
  receiveSide_eq : kcp.receiveSide = {
    nxt := 0
    wnd := if params.rcvWnd > 0 then imax params.rcvWnd.toUInt32 ikcpWndRcv else ikcpWndRcv
    queue := []
    nque := 0
    buf := []
    nbuf := 0
    acks := [] }

/-- What `Initialize` has set when it succeeds. -/
theorem initializeControl_spec {sessionId : UInt32} {params : Params} {kcp : IKCPCB}
    (h : initializeControl sessionId params = some kcp) : Initialized sessionId params kcp := by
  simp only [initializeControl] at h
  rcases ikcpSetmtu_cases (ikcpWndsize (ikcpStream (ikcpCreate sessionId) params.streamMode)
    params.sndWnd params.rcvWnd) params.mtu with hneg | ⟨hmtu, incr, heq⟩
  · simp [hneg] at h
  rw [heq] at h
  simp only [Int.reduceLT, ite_false] at h
  generalize hk : ({ ikcpWndsize (ikcpStream (ikcpCreate sessionId) params.streamMode)
      params.sndWnd params.rcvWnd with
    mtu := params.mtu.toUInt32
    mss := params.mtu.toUInt32 - (ikcpWndsize (ikcpStream (ikcpCreate sessionId) params.streamMode)
      params.sndWnd params.rcvWnd).headRoom - UInt32.ofNat ikcpOverhead
    incr := incr } : IKCPCB) = k at h
  have hmss : k.mss = params.mtu.toUInt32 - UInt32.ofNat ikcpOverhead := by
    rw [← hk]
    simp [ikcpWndsize, ikcpStream, ikcpCreate]
  rcases ikcpSetHeadRoom_cases k params.headRoom.toUInt32 with hneg | ⟨hroom, heq'⟩
  · simp [hneg] at h
  rw [heq'] at h
  simp only [Int.reduceLT, ite_false, Option.some.injEq] at h
  rw [← h]
  obtain ⟨hs, hr, hh, hm⟩ := ikcpNodelay_sides (ikcpSetSndHghwat
    { k with headRoom := params.headRoom.toUInt32, mss := k.mss - params.headRoom.toUInt32 }
    params.sndWnd.toUInt32) params.nodelay params.interval params.resend params.nocongestion
  constructor
  · exact hmtu
  · rwa [← hmss]
  · rw [hm, ← hk]
    rfl
  · rw [hh]
    rfl
  · rw [hs, ← hmss, ← hk]
    rfl
  · rw [hr, ← hk]
    rfl

/-- What `KCPSession::Initialize` leaves is what its calls make of a fresh control block. -/
theorem initializeControl_form {sessionId : UInt32} {params : Params} {kcp : IKCPCB}
    (h : initializeControl sessionId params = some kcp) :
    ∃ mtu mss headRoom incr, kcp = ikcpNodelay
      { ikcpWndsize (ikcpStream (ikcpCreate sessionId) params.streamMode) params.sndWnd
          params.rcvWnd with
        mtu, mss, headRoom, incr, sndHghwat := params.sndWnd.toUInt32 }
      params.nodelay params.interval params.resend params.nocongestion := by
  simp only [initializeControl] at h
  rcases ikcpSetmtu_cases (ikcpWndsize (ikcpStream (ikcpCreate sessionId) params.streamMode)
    params.sndWnd params.rcvWnd) params.mtu with hneg | ⟨_, incr, heq⟩
  · simp [hneg] at h
  rw [heq] at h
  simp only [Int.reduceLT, ite_false] at h
  rcases ikcpSetHeadRoom_cases { ikcpWndsize (ikcpStream (ikcpCreate sessionId) params.streamMode)
      params.sndWnd params.rcvWnd with
    mtu := params.mtu.toUInt32
    mss := params.mtu.toUInt32 - (ikcpWndsize (ikcpStream (ikcpCreate sessionId) params.streamMode)
      params.sndWnd params.rcvWnd).headRoom - UInt32.ofNat ikcpOverhead
    incr := incr } params.headRoom.toUInt32 with hneg | ⟨_, heq'⟩
  · simp [hneg] at h
  rw [heq'] at h
  simp only [Int.reduceLT, ite_false, Option.some.injEq] at h
  exact ⟨_, _, _, _, h.symm⟩

/-- A new control block is consistent. -/
theorem initializeControl_inv {sessionId : UInt32} {params : Params} {kcp : IKCPCB}
    (h : initializeControl sessionId params = some kcp) : kcp.Inv := by
  have hi := initializeControl_spec h
  obtain ⟨hge, hlt⟩ := toNat_of_le hi.mtu_ge
  have hover : (UInt32.ofNat ikcpOverhead).toNat = 24 := rfl
  have hpay : (params.mtu.toUInt32 - UInt32.ofNat ikcpOverhead).toNat =
      params.mtu.toUInt32.toNat - 24 := by
    rw [UInt32.toNat_sub, hover]
    omega
  have hroom := UInt32.lt_iff_toNat_lt.mp hi.headRoom_lt
  have hmss : kcp.mss.toNat = params.mtu.toUInt32.toNat - 24 - params.headRoom.toUInt32.toNat := by
    have hm : kcp.mss = _ := congrArg SendSide.mss hi.sendSide_eq
    rw [hm, UInt32.toNat_sub, hpay]
    omega
  constructor
  · rw [hi.sendSide_eq]
    exact ⟨rfl, rfl, Within.nil, rfl, by simp, by simp, (by decide : ikcpWndRcv.toNat < _),
      by simp, by simp, by simp, by simp⟩
  · rw [hi.receiveSide_eq]
    exact ⟨rcvWnd_lt _ _ (by decide), rfl, by simp, rfl, Within.nil⟩
  · omega
  · rw [hmss, hi.mtu_eq, hi.headRoom_eq]
    simp only [ikcpOverhead]
    omega
  · rw [hi.mtu_eq]
    exact hlt

/-- No call changes a setting. -/
theorem ControlCall.run_config (kcp : IKCPCB) (call : ControlCall) :
    (call.run kcp).config = kcp.config := by
  cases call with
  | send data => exact ikcpWrite_config kcp data false
  | append data => exact ikcpWrite_config kcp data true
  | input data => exact ikcpInput_config kcp data
  | recv len => exact ikcpRecv_config kcp len
  | flush current => exact ikcpFlush_config kcp current

/-- Every call keeps the sending half consistent. -/
theorem ControlCall.run_sendSide_inv {kcp : IKCPCB} (h : kcp.Inv) (call : ControlCall) :
    (call.run kcp).sendSide.Inv := by
  cases call with
  | send data => exact ikcpWrite_inv h.mss_pos h.send data false
  | append data => exact ikcpWrite_inv h.mss_pos h.send data true
  | input data => exact ikcpInput_sendSide_inv h.send data
  | recv len =>
      rw [ControlCall.run, ikcpRecv_sendSide]
      exact h.send
  | flush current =>
      obtain ⟨_, _, _, heq, hinv⟩ := ikcpFlush_fill h.send current
      rw [ControlCall.run, heq]
      exact hinv

/-- Every call keeps the receiving half consistent. -/
theorem ControlCall.run_receiveSide_inv {kcp : IKCPCB} (h : kcp.Inv) (call : ControlCall) :
    (call.run kcp).receiveSide.Inv := by
  cases call with
  | send data =>
      rw [ControlCall.run, ikcpSend, ikcpWrite_receiveSide]
      exact h.receive
  | append data =>
      rw [ControlCall.run, ikcpAppend, ikcpWrite_receiveSide]
      exact h.receive
  | input data => exact ikcpInput_receiveSide_inv h.receive data
  | recv len => exact ikcpRecv_inv h.receive len
  | flush current =>
      have hr := h.receive
      rw [ControlCall.run, ikcpFlush_receiveSide]
      exact ⟨hr.wnd_lt, hr.nque_eq, hr.nque_le, hr.nbuf_eq, hr.within⟩

/-- The joint invariant reads the two halves and the settings. -/
theorem IKCPCB.Inv.of_config {kcp kcp' : IKCPCB} (h : kcp.Inv) (hs : kcp'.sendSide.Inv)
    (hr : kcp'.receiveSide.Inv) (hc : kcp'.config = kcp.config) : kcp'.Inv := by
  have hmss : kcp'.mss = kcp.mss := congrArg Config.mss hc
  have hmtu : kcp'.mtu = kcp.mtu := congrArg Config.mtu hc
  have hroom : kcp'.headRoom = kcp.headRoom := congrArg Config.headRoom hc
  constructor
  · exact hs
  · exact hr
  · rw [hmss]
    exact h.mss_pos
  · rw [hmss, hmtu, hroom]
    exact h.size_eq
  · rw [hmtu]
    exact h.mtu_lt

/-- Every call keeps the joint invariant. -/
theorem ControlCall.run_inv {kcp : IKCPCB} (h : kcp.Inv) (call : ControlCall) :
    (call.run kcp).Inv :=
  h.of_config (run_sendSide_inv h call) (run_receiveSide_inv h call) (run_config kcp call)

/-- So does every accepted segment of a datagram, taken for itself. -/
theorem ikcpInputSeg_inv {st : InputState} (h : st.kcp.Inv) {seg : IKCPSEG}
    (hw : seg.wnd.toNat < 2 ^ 16) : (ikcpInputSeg st seg).kcp.Inv :=
  h.of_config (ikcpInputSeg_sendSide_inv h.send hw) (ikcpInputSeg_receiveSide_inv h.receive seg)
    (ikcpInputSeg_config st seg)

/-- The end of a datagram keeps a control block consistent. -/
theorem ikcpInputEnd_inv {st : InputState} (h : st.kcp.Inv) (prevUna : UInt32) :
    (ikcpInputEnd st prevUna).Inv := by
  obtain ⟨hs, hr⟩ := ikcpInputEnd_sides st prevUna
  exact h.of_config (hs ▸ h.send) (hr ▸ h.receive) (ikcpInputEnd_config st prevUna)

/-- A reachable control block is consistent. -/
theorem IKCPCB.Reachable.inv {sessionId : UInt32} {params : Params} {kcp : IKCPCB}
    (h : kcp.Reachable sessionId params) : kcp.Inv :=
  h.invariant (fun _ => initializeControl_inv) fun _ call hk => ControlCall.run_inv hk call

/-- The settings of a reachable control block are those of `KCPSession::Initialize`. -/
theorem IKCPCB.Reachable.config {sessionId : UInt32} {params : Params} {kcp : IKCPCB}
    (h : kcp.Reachable sessionId params) :
    ∃ kcp₀, initializeControl sessionId params = some kcp₀ ∧ kcp.config = kcp₀.config := by
  obtain ⟨kcp₀, calls, h₀, rfl⟩ := h
  refine ⟨kcp₀, h₀, ?_⟩
  exact List.foldlRecOn (motive := fun k : IKCPCB => k.config = kcp₀.config) calls
    ControlCall.run rfl fun k hk call _ => by rw [ControlCall.run_config, hk]

/-- What the four queues and the five counters of a control block say about each
other. Orders and windows are read from the lower end of each window, around the
circle of 32-bit numbers; `nsnd_que` counts modulo `2 ^ 32`, the other three
queues are bounded by their windows. -/
structure IKCPCB.Consistent (kcp : IKCPCB) : Prop where
  nsndQue_eq : kcp.nsndQue = UInt32.ofNat kcp.sndQueue.length
  nsndBuf_eq : kcp.nsndBuf.toNat = kcp.sndBuf.length
  nrcvQue_eq : kcp.nrcvQue.toNat = kcp.rcvQueue.length
  nrcvBuf_eq : kcp.nrcvBuf.toNat = kcp.rcvBuf.length
  sndBuf_increasing :
    kcp.sndBuf.Pairwise fun a b => dist kcp.sndUna a.sn < dist kcp.sndUna b.sn
  sndBuf_window : ∀ seg ∈ kcp.sndBuf, seg.sn - kcp.sndUna < kcp.sndNxt - kcp.sndUna
  sndUna_eq : kcp.sndUna =
    match kcp.sndBuf with
    | [] => kcp.sndNxt
    | seg :: _ => seg.sn
  flight_le : kcp.sndNxt - kcp.sndUna ≤ kcp.sndWnd
  rcvBuf_increasing :
    kcp.rcvBuf.Pairwise fun a b => dist kcp.rcvNxt a.sn < dist kcp.rcvNxt b.sn
  rcvBuf_window : ∀ seg ∈ kcp.rcvBuf, seg.sn - kcp.rcvNxt < kcp.rcvWnd
  nrcvQue_le : kcp.nrcvQue ≤ kcp.rcvWnd
  snd_len_le : ∀ seg ∈ kcp.sndQueue ++ kcp.sndBuf, seg.data.length ≤ kcp.mss.toNat
  last_frg : ∀ seg, kcp.sndQueue.getLast? = some seg → seg.frg = 0

private theorem toNat_ofNat_length {n : Nat} {x : UInt32} (h : x = UInt32.ofNat n)
    (hn : n < 2 ^ 32) : x.toNat = n := by
  rw [h, UInt32.toNat_ofNat', Nat.mod_eq_of_lt hn]

/-- `snd_una` is the first number in `snd_buf`, or the next one. -/
theorem SendSide.Inv.sndUna_eq {kcp : IKCPCB} (h : kcp.sendSide.Inv) : kcp.sndUna =
    match kcp.sndBuf with
    | [] => kcp.sndNxt
    | seg :: _ => seg.sn := by
  have huna := h.una_eq
  simp only [IKCPCB.sendSide] at huna
  cases hb : kcp.sndBuf with
  | nil => simpa [hb] using huna
  | cons seg rest => simpa [hb] using huna

/-- The invariant says all that is asked of a control block. -/
theorem IKCPCB.Inv.consistent {kcp : IKCPCB} (h : kcp.Inv) : kcp.Consistent := by
  have hsw : Within kcp.sndUna (dist kcp.sndUna kcp.sndNxt) (kcp.sndBuf.map IKCPSEG.sn) := by
    have hw := h.send.within
    simpa only [IKCPCB.sendSide, map_core_sn] using hw
  have hrw : Within kcp.rcvNxt kcp.rcvWnd.toNat (kcp.rcvBuf.map IKCPSEG.sn) := h.receive.within
  have hwnd : kcp.rcvWnd.toNat < 2 ^ 31 := h.receive.wnd_lt
  have hque : kcp.rcvQueue.length ≤ kcp.rcvWnd.toNat := h.receive.nque_le
  have hsbuf := h.send.buf_length_lt
  have hrbuf := hrw.length_le
  rw [List.length_map] at hrbuf
  have hnque : kcp.nrcvQue.toNat = kcp.rcvQueue.length :=
    toNat_ofNat_length h.receive.nque_eq (by omega)
  constructor
  · exact h.send.nque_eq
  · have hn : kcp.nsndBuf = UInt32.ofNat (kcp.sndBuf.map IKCPSEG.core).length := h.send.nbuf_eq
    rw [List.length_map] at hn
    simp only [IKCPCB.sendSide, List.length_map] at hsbuf
    exact toNat_ofNat_length hn (by omega)
  · exact hnque
  · exact toNat_ofNat_length h.receive.nbuf_eq (by omega)
  · have hp := hsw.ascending
    rwa [List.pairwise_map] at hp
  · intro seg hseg
    exact UInt32.lt_iff_toNat_lt.mpr (hsw.bounded _ (List.mem_map_of_mem hseg))
  · exact h.send.sndUna_eq
  · exact UInt32.le_iff_toNat_le.mpr h.send.flight_le
  · have hp := hrw.ascending
    rwa [List.pairwise_map] at hp
  · intro seg hseg
    exact UInt32.lt_iff_toNat_lt.mpr (hrw.bounded _ (List.mem_map_of_mem hseg))
  · exact UInt32.le_iff_toNat_le.mpr (by rwa [hnque])
  · intro seg hseg
    rcases List.mem_append.mp hseg with hseg | hseg
    · exact (h.send.queued seg hseg).data_le
    · exact (h.send.buffered seg.core (List.mem_map_of_mem hseg)).data_le
  · exact h.send.last_frg

/-- A control block configured by `KCPSession::Initialize` is consistent after any
calls, with arbitrary bytes, lengths and clock values. -/
theorem reachable_consistent {sessionId : UInt32} {params : Params} {kcp : IKCPCB}
    (h : kcp.Reachable sessionId params) : kcp.Consistent :=
  h.inv.consistent

/-- A session with the fast parameters that has sent, flushed, rejected a datagram
midway and flushed again. -/
theorem reachable_consistent_fast :
    ∃ kcp : IKCPCB, kcp.Reachable 7 { kFastModeKCPParams with headRoom := 9 } ∧
      kcp.sndBuf.length = 2 ∧ kcp.Consistent := by
  have hr : IKCPCB.Reachable 7 { kFastModeKCPParams with headRoom := 9 }
      ([ControlCall.send [1, 2, 3], .flush 5, .input (List.replicate 30 0), .append [4],
        .flush 60].foldl ControlCall.run
        ((initializeControl 7 { kFastModeKCPParams with headRoom := 9 }).getD (ikcpCreate 0))) :=
    ⟨_, _, rfl, rfl⟩
  exact ⟨_, hr, by decide +kernel, reachable_consistent hr⟩

end CodeBlocks.Kcp
