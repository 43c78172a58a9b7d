import CodeBlocks.Kcp.Session.Moments

/-!
# The checks of a write

`WriteInLoopThread` asserts that `ikcp_send` takes what the window admits and
that `ikcp_append` takes the rest. The window is counted in segments and admits
as many as the send window holds, but a message must have one less: the two
limits meet when nothing waits, the remote window is open as well, and the
`Write` fills them.
-/

namespace CodeBlocks.Kcp

namespace KCPSession

/-- The events of a kind are counted one by one. -/
theorem log_countP (p : SessionEvent → Bool) (s : KCPSession) (event : SessionEvent) :
    (s.log event).events.countP p = s.events.countP p + if p event then 1 else 0 := by
  rw [log, List.countP_append, List.countP_singleton]

/-- An event of another kind, logged under a condition. -/
theorem log_countP_same (p : SessionEvent → Bool) (c : Prop) [Decidable c] (s : KCPSession)
    {event : SessionEvent} (h : p event = false) :
    (if c then s.log event else s).events.countP p = s.events.countP p := by
  split
  · rw [log_countP, h]
    rfl
  · rfl

/-- A kind of events that a flush does not make. -/
theorem flushWire_countP {p : SessionEvent → Bool}
    (hassigned : ∀ count, p (.assigned count) = false)
    (houtput : ∀ body address, p (.output body address) = false) (hflush : p .flushTxQueue = false)
    (c : Prop) [Decidable c] (s : KCPSession) (currentMs : UInt32) :
    (if c then (s.flush currentMs).flushTxQueue else s).events.countP p = s.events.countP p := by
  split
  · rw [flushTxQueue, log_countP_same p _ _ hflush, flush, List.countP_append,
      List.countP_cons_of_neg (by simp [hassigned]), List.countP_map]
    simp [Function.comp_def, houtput]
  · rfl

end KCPSession

/-- The assertions that have failed. -/
def KCPSession.failures (s : KCPSession) : Nat := s.events.count .assertFailed

namespace KCPSession

/-- The failures are counted one by one. -/
theorem log_failures (s : KCPSession) (event : SessionEvent) :
    (s.log event).failures = s.failures + if event = .assertFailed then 1 else 0 := by
  rw [failures, List.count, log_countP]
  simp [failures, List.count]

/-- An event that is no failure, logged under a condition. -/
theorem log_failures_same (c : Prop) [Decidable c] (s : KCPSession) {event : SessionEvent}
    (h : event ≠ .assertFailed) : (if c then s.log event else s).failures = s.failures :=
  log_countP_same _ c s (by simpa using h)

/-- Flushing fails no assertion. -/
theorem flushWire_failures (c : Prop) [Decidable c] (s : KCPSession) (currentMs : UInt32) :
    (if c then (s.flush currentMs).flushTxQueue else s).failures = s.failures :=
  flushWire_countP (fun _ => rfl) (fun _ _ => rfl) rfl c s currentMs

/-- The check on `ikcp_send` fails when it is called and does not take the bytes. -/
theorem writeWindow_failures (s : KCPSession) (data : List UInt8) (currentMs : UInt32) :
    (s.writeWindow data currentMs).1.failures = s.failures +
      if ikcpNeedDrain s.kcp = false ∧
          0 < min (ikcpAvailableWndInBytes s.kcp).toNat data.length ∧
          ¬ s.kcp.Sends (min (ikcpAvailableWndInBytes s.kcp).toNat data.length) then 1 else 0 := by
  have hlt : min (ikcpAvailableWndInBytes s.kcp).toNat data.length < 2 ^ 32 :=
    (Nat.min_le_left _ _).trans_lt (UInt32.toNat_lt _)
  have hle : min (ikcpAvailableWndInBytes s.kcp).toNat data.length ≤ data.length :=
    Nat.min_le_right _ _
  unfold writeWindow
  by_cases hdrain : ikcpNeedDrain s.kcp = true
  · rw [if_pos hdrain, if_neg (by simp [hdrain])]
    rfl
  have hidle : ikcpNeedDrain s.kcp = false := by simpa using hdrain
  rw [if_neg hdrain]
  generalize min (ikcpAvailableWndInBytes s.kcp).toNat data.length = bytes at hlt hle
  have htaken : (data.take bytes).length = bytes := List.length_take_of_le hle
  have hsend := @ikcpSend_eq_zero_iff s.kcp (data.take bytes) (by rwa [htaken])
  rw [htaken] at hsend
  by_cases hpos : 0 < bytes
  · by_cases hok : (ikcpSend s.kcp (data.take bytes)).1 = 0
    · have hnone : ¬ (ikcpNeedDrain s.kcp = false ∧ 0 < bytes ∧ ¬ s.kcp.Sends bytes) :=
        fun htrips => htrips.2.2 (hsend.mp hok)
      rw [if_neg hnone, if_pos hpos]
      simp only [hok, if_true]
      rw [log_failures_same _ _ (by simp), flushWire_failures]
      rfl
    · have htrips : ikcpNeedDrain s.kcp = false ∧ 0 < bytes ∧ ¬ s.kcp.Sends bytes :=
        ⟨hidle, hpos, fun hsends => hok (hsend.mpr hsends)⟩
      rw [if_pos htrips, if_pos hpos]
      simp only [hok, if_false]
      rw [log_failures, if_pos rfl]
      rfl
  · have hnone : ¬ (ikcpNeedDrain s.kcp = false ∧ 0 < bytes ∧ ¬ s.kcp.Sends bytes) :=
      fun htrips => hpos htrips.2.1
    rw [if_neg hnone, if_neg hpos]
    rfl

/-- The check on `ikcp_append` holds for lengths that are not negative as an `int`. -/
theorem writeRemaining_failures (s : KCPSession) {data : List UInt8} (hlen : data.length < 2 ^ 31)
    (reach : Bool) : (s.writeRemaining data reach).failures = s.failures := by
  have hok : (ikcpAppend s.kcp data).1 = 0 := by
    by_contra hne
    exact absurd (ikcpAppend_ne_zero hne) (not_le.mpr hlen)
  unfold writeRemaining
  split
  · simp only [hok, if_true]
    rw [log_failures_same _ _ (by simp)]
    rfl
  · rfl

end KCPSession

/-- A `Write` that meets a window of which nothing is in use, and fills it. -/
def IKCPCB.Trips (kcp : IKCPCB) (len : Nat) : Prop :=
  ikcpWaitsnd kcp = 0 ∧ ikcpWndRcv ≤ kcp.rmtWnd ∧ 127 * kcp.mss.toNat < len

instance (kcp : IKCPCB) (len : Nat) : Decidable (kcp.Trips len) :=
  inferInstanceAs (Decidable (_ ∧ _))

/-- The fast parameters leave a send window of 128 segments and message mode. -/
structure IKCPCB.Fast (kcp : IKCPCB) : Prop where
  inv : kcp.Inv
  sndWnd_eq : kcp.sndWnd = 128
  stream_eq : kcp.stream = 0
  mtu_eq : kcp.mtu = 1400

/-- The fast configuration is a matter of the block's configuration. -/
theorem IKCPCB.Fast.of_config {kcp kcp' : IKCPCB} (h : kcp.Fast) (hinv : kcp'.Inv)
    (hc : kcp'.config = kcp.config) : kcp'.Fast where
  inv := hinv
  sndWnd_eq := (congrArg Config.sndWnd hc).trans h.sndWnd_eq
  stream_eq := (congrArg Config.stream hc).trans h.stream_eq
  mtu_eq := (congrArg Config.mtu hc).trans h.mtu_eq

namespace IKCPCB.Fast

variable {kcp : IKCPCB} (h : kcp.Fast)
include h

/-- A segment carries 1376 bytes at most. -/
theorem mss_le : kcp.mss.toNat ≤ 1376 := by
  have hsize := h.inv.size_eq
  have hmtu : kcp.mtu.toNat = 1400 := by rw [h.mtu_eq]; rfl
  have hover : ikcpOverhead = 24 := rfl
  omega

/-- The free window is what the smaller of the two windows leaves beside what waits. -/
theorem available_eq : (ikcpAvailableWndInMss kcp false).toNat =
    min 128 kcp.rmtWnd.toNat - (ikcpWaitsnd kcp).toNat := by
  have hwnd : (ikcpCalcWnd kcp false).toNat = min 128 kcp.rmtWnd.toNat := by
    simp only [ikcpCalcWnd, Bool.false_eq_true, false_and, if_false, imin, h.sndWnd_eq]
    split
    · rename_i hle
      have hnat := UInt32.le_iff_toNat_le.mp hle
      exact (min_eq_left hnat).symm
    · rename_i hgt
      have hnat := UInt32.lt_iff_toNat_lt.mp (UInt32.not_le.mp hgt)
      exact (min_eq_right hnat.le).symm
  simp only [ikcpAvailableWndInMss]
  split
  · rename_i hfree
    have hlt := UInt32.lt_iff_toNat_lt.mp hfree
    rw [UInt32.toNat_sub_of_le _ _ (UInt32.le_iff_toNat_le.mpr hlt.le), hwnd]
  · rename_i hfull
    have hge := UInt32.le_iff_toNat_le.mp (UInt32.not_lt.mp hfull)
    rw [hwnd] at hge
    exact (Nat.sub_eq_zero_of_le hge).symm

/-- The window in bytes, whose product does not wrap around. -/
theorem availableBytes_eq : (ikcpAvailableWndInBytes kcp).toNat =
    (min 128 kcp.rmtWnd.toNat - (ikcpWaitsnd kcp).toNat) * kcp.mss.toNat := by
  rw [ikcpAvailableWndInBytes, UInt32.toNat_mul, h.available_eq]
  apply Nat.mod_eq_of_lt
  have hfree : min 128 kcp.rmtWnd.toNat - (ikcpWaitsnd kcp).toNat ≤ 128 := by omega
  calc (min 128 kcp.rmtWnd.toNat - (ikcpWaitsnd kcp).toNat) * kcp.mss.toNat
      ≤ 128 * 1376 := Nat.mul_le_mul hfree h.mss_le
    _ < 2 ^ 32 := by decide

/-- The bytes that the window admits make a message of at most one segment too many. -/
theorem trips_iff (len : Nat) :
    (ikcpNeedDrain kcp = false ∧ 0 < min (ikcpAvailableWndInBytes kcp).toNat len ∧
      ¬ kcp.Sends (min (ikcpAvailableWndInBytes kcp).toNat len)) ↔ kcp.Trips len := by
  have hmss := h.inv.mss_pos
  have hmss' := h.mss_le
  have hwait : ikcpWaitsnd kcp = 0 ↔ (ikcpWaitsnd kcp).toNat = 0 := UInt32.toNat_inj.symm
  have hrmt : ikcpWndRcv ≤ kcp.rmtWnd ↔ 128 ≤ kcp.rmtWnd.toNat := UInt32.le_iff_toNat_le
  have hidle : (ikcpWaitsnd kcp).toNat = 0 → ikcpNeedDrain kcp = false := by
    intro hzero
    rw [ikcpNeedDrain, decide_eq_false_iff_not, UInt32.not_lt, UInt32.le_iff_toNat_le, hzero]
    exact Nat.zero_le _
  rw [IKCPCB.Trips, hwait, hrmt, h.availableBytes_eq]
  generalize hfree : min 128 kcp.rmtWnd.toNat - (ikcpWaitsnd kcp).toNat = free
  have hbytes : free * kcp.mss.toNat ≤ 128 * 1376 := Nat.mul_le_mul (by omega) hmss'
  -- a message is too long when it needs more than 127 segments
  have hsends : 0 < min (free * kcp.mss.toNat) len →
      (¬ kcp.Sends (min (free * kcp.mss.toNat) len) ↔
        127 * kcp.mss.toNat < min (free * kcp.mss.toNat) len) := by
    intro hpos
    rw [← lt_ikcpFragmentCount_iff hmss hpos, IKCPCB.Sends]
    have hsmall : min (free * kcp.mss.toNat) len < 2 ^ 31 := by omega
    have hwnd : ikcpWndRcv.toNat = 128 := rfl
    simp only [hsmall, h.stream_eq, hwnd, true_and, forall_const]
    omega
  have hfull : 127 * kcp.mss.toNat < free * kcp.mss.toNat ↔ 127 < free :=
    Nat.mul_lt_mul_right hmss
  constructor
  · rintro ⟨-, hpos, hnot⟩
    have hlt := (hsends hpos).mp hnot
    have hlarge := hfull.mp (hlt.trans_le (Nat.min_le_left _ _))
    exact ⟨by omega, by omega, hlt.trans_le (Nat.min_le_right _ _)⟩
  · rintro ⟨hzero, hopen, hlen⟩
    have hlt : 127 * kcp.mss.toNat < min (free * kcp.mss.toNat) len :=
      lt_min (hfull.mpr (by omega)) hlen
    have hpos : 0 < min (free * kcp.mss.toNat) len := by omega
    exact ⟨hidle hzero, hpos, (hsends hpos).mpr hlt⟩

end IKCPCB.Fast

/-- The fast parameters, with any head room. -/
def fastParams (headRoom : Int32) : Params := { kFastModeKCPParams with headRoom := headRoom }

/-- `Initialize` with the fast parameters makes such a control block. -/
theorem initializeControl_fast {sessionId : UInt32} {headRoom : Int32} {kcp : IKCPCB}
    (h : initializeControl sessionId (fastParams headRoom) = some kcp) : kcp.Fast := by
  have hspec := initializeControl_spec h
  refine ⟨initializeControl_inv h, congrArg SendSide.wnd hspec.sendSide_eq, ?_, hspec.mtu_eq⟩
  obtain ⟨mtu, mss, headRoom, incr, rfl⟩ := initializeControl_form h
  rfl

/-- Every state of a session with the fast parameters keeps them. -/
theorem KCPSession.Reached.fast {sessionId : UInt32} {peerAddress : InetAddress} {headRoom : Int32}
    {callbacks : SessionCallbacks} {s : KCPSession}
    (h : Reached sessionId peerAddress (fastParams headRoom) callbacks s) : s.kcp.Fast := by
  obtain ⟨kcp, hkcp, hsteps⟩ := h.steps
  have hfast := initializeControl_fast hkcp
  obtain ⟨hinv, hconfig⟩ := hsteps.inv hfast.inv
  exact hfast.of_config hinv hconfig

/-- A `Write` passes its checks exactly when it does not meet an empty window that it fills. -/
theorem KCPSession.writeInLoopThread_failures_iff {s : KCPSession} (hfast : s.kcp.Fast)
    (hopen : s.closed = false) {data : List UInt8} (hlen : data.length < 2 ^ 31)
    (currentMs : UInt32) :
    (s.writeInLoopThread data currentMs).failures = s.failures ↔ ¬ s.kcp.Trips data.length := by
  have hlog : (s.log (.written data)).failures = s.failures := by
    rw [log_failures, if_neg (by simp), Nat.add_zero]
  have hrest : (data.drop ((s.log (.written data)).writeWindow data currentMs).2).length <
      2 ^ 31 := by
    rw [List.length_drop]
    omega
  have hkcp : (s.log (.written data)).kcp = s.kcp := rfl
  unfold writeInLoopThread
  rw [if_neg (by simpa [log] using hopen)]
  simp only
  rw [writeRemaining_failures _ hrest, writeWindow_failures, hlog]
  simp only [hkcp, hfast.trips_iff]
  split
  · rename_i htrips
    simp [htrips]
  · rename_i htrips
    simp [htrips]

/-- In every state of an open session with the fast parameters, inside a callback as well, both
checks of a `Write` hold exactly when it does not fill a window of which nothing is in use. -/
theorem write_checks_iff (sessionId : UInt32) (peerAddress : InetAddress) (headRoom : Int32)
    (callbacks : SessionCallbacks) (s : KCPSession)
    (hreached : KCPSession.Reached sessionId peerAddress (fastParams headRoom) callbacks s)
    (hopen : s.closed = false) (data : List UInt8) (hlen : data.length < 2 ^ 31)
    (currentMs : UInt32) :
    (s.writeInLoopThread data currentMs).failures = s.failures ↔ ¬ s.kcp.Trips data.length :=
  KCPSession.writeInLoopThread_failures_iff hreached.fast hopen hlen currentMs

/-- An idle session takes a thousand bytes. -/
theorem write_checks_iff_idle :
    ∃ s, KCPSession.initializeWith 7 ⟨"10.0.0.1:9000"⟩ (fastParams 9) {} [] = some s ∧
      (s.writeInLoopThread (List.replicate 1000 0) 0).failures = s.failures := by
  have hrun : (KCPSession.initializeWith 7 ⟨"10.0.0.1:9000"⟩ (fastParams 9) {} []).map
      (fun s => (s.closed, decide (s.kcp.Trips 1000))) = some (false, false) := by
    decide +kernel
  obtain ⟨s, hstart, hstate⟩ := Option.map_eq_some_iff.mp hrun
  obtain ⟨hopen, htrips⟩ := Prod.mk.inj hstate
  refine ⟨s, hstart, ?_⟩
  have hlen : (List.replicate 1000 (0 : UInt8)).length < 2 ^ 31 := by
    rw [List.length_replicate]
    decide
  have hreached : KCPSession.Reached 7 ⟨"10.0.0.1:9000"⟩ (fastParams 9) {} s :=
    ⟨[], s, [], hstart, List.mem_cons_self⟩
  apply (write_checks_iff 7 ⟨"10.0.0.1:9000"⟩ 9 {} s hreached hopen (List.replicate 1000 0) hlen
    0).mpr
  rw [List.length_replicate]
  exact of_decide_eq_false htrips

/-- The check fails when an idle session is given one byte more than 127 segments hold. -/
theorem not_write_checks_full :
    ∃ s, KCPSession.initializeWith 7 ⟨"10.0.0.1:9000"⟩ (fastParams 9) {} [] = some s ∧
      s.closed = false ∧
      (s.writeInLoopThread (List.replicate (127 * 1367 + 1) 0) 0).failures ≠ s.failures := by
  have hrun : (KCPSession.initializeWith 7 ⟨"10.0.0.1:9000"⟩ (fastParams 9) {} []).map
      (fun s => (s.closed, decide (s.kcp.Trips (127 * 1367 + 1)))) = some (false, true) := by
    decide +kernel
  obtain ⟨s, hstart, hstate⟩ := Option.map_eq_some_iff.mp hrun
  obtain ⟨hopen, htrips⟩ := Prod.mk.inj hstate
  have hlen : (List.replicate (127 * 1367 + 1) (0 : UInt8)).length < 2 ^ 31 := by
    rw [List.length_replicate]
    decide
  have hreached : KCPSession.Reached 7 ⟨"10.0.0.1:9000"⟩ (fastParams 9) {} s :=
    ⟨[], s, [], hstart, List.mem_cons_self⟩
  refine ⟨s, hstart, hopen, fun hsame => ?_⟩
  apply (KCPSession.writeInLoopThread_failures_iff hreached.fast hopen hlen 0).mp hsame
  rw [List.length_replicate]
  exact of_decide_eq_true htrips

end CodeBlocks.Kcp
