import CodeBlocks.Kcp.Session.WriteChecks

/-!
# The high-water mark

`WriteInLoopThread` compares what waits before it with what waits after it, and
queues the callback where the mark lies between. Only the bytes that are appended
can take a session over the mark, since the window never takes more segments than
the send window holds. `Initialize` does not set the mark that its parameters
name: it takes the send window for it a second time.
-/

namespace CodeBlocks.Kcp

/-- A call of the high-water-mark callback that is queued. -/
def SessionEvent.isHighWaterMark : SessionEvent → Bool
  | .highWaterMark _ => true
  | _ => false

namespace KCPSession

/-- The calls of the high-water-mark callback that are queued so far. -/
def highWaterMarks (s : KCPSession) : Nat := s.events.countP SessionEvent.isHighWaterMark

/-- A `Write` takes `ikcp_waitsnd` from below a mark to the mark or above it. -/
def Crosses (s : KCPSession) (mark : Nat) (data : List UInt8) (currentMs : UInt32) : Prop :=
  (ikcpWaitsnd s.kcp).toNat < mark ∧
    mark ≤ (ikcpWaitsnd (s.writeInLoopThread data currentMs).kcp).toNat

/-- A `Write` queues the callback once if it crosses a mark and the callback is set, and not at
all otherwise. -/
def NotifiesAt (s : KCPSession) (mark : Nat) (data : List UInt8) (currentMs : UInt32) : Prop :=
  (s.callbacks.highWaterMark = true ∧ s.Crosses mark data currentMs →
      (s.writeInLoopThread data currentMs).highWaterMarks = s.highWaterMarks + 1) ∧
    (¬ (s.callbacks.highWaterMark = true ∧ s.Crosses mark data currentMs) →
      (s.writeInLoopThread data currentMs).highWaterMarks = s.highWaterMarks)

end KCPSession

/-- The mark that a control block has, where the sum does not wrap around. -/
def IKCPCB.mark (kcp : IKCPCB) : Nat := kcp.sndWnd.toNat + kcp.sndHghwat.toNat

/-- The mark is reached when as many segments wait as it says. -/
theorem ikcpReachSndHghwat_iff {kcp : IKCPCB} (hmark : kcp.mark < 2 ^ 32) :
    ikcpReachSndHghwat kcp = true ↔ kcp.mark ≤ (ikcpWaitsnd kcp).toNat := by
  rw [ikcpReachSndHghwat, decide_eq_true_iff, ge_iff_le, UInt32.le_iff_toNat_le, UInt32.toNat_add,
    ← IKCPCB.mark, Nat.mod_eq_of_lt hmark]

/-- What waits after the window has taken its bytes fits into the send window. -/
theorem sentTally_waitsnd_le {kcp : IKCPCB} (h : kcp.Inv) (hidle : ikcpNeedDrain kcp = false)
    (len : Nat) : (kcp.sentTally len).waiting % 2 ^ 32 ≤ kcp.sndWnd.toNat := by
  obtain ⟨tally, hwaiting, hsent⟩ := sentTally_waiting kcp len
  have hge := (tally.add_waiting_le h.mss_pos (kcp.sentBytes len)).1
  have hle := sentTally_waiting_le_add h.mss_pos len
  have hwait := toNat_ikcpWaitsnd h.send
  have hfree := ikcpAvailableWndInMss_le hidle
  have hwnd := kcp.sndWnd.toNat_lt
  omega

namespace KCPSession

/-- The window queues no call. -/
theorem writeWindow_highWaterMarks (s : KCPSession) (data : List UInt8) (currentMs : UInt32) :
    (s.writeWindow data currentMs).1.highWaterMarks = s.highWaterMarks := by
  unfold writeWindow
  by_cases hdrain : ikcpNeedDrain s.kcp = true
  · rw [if_pos hdrain]
  rw [if_neg hdrain]
  generalize min (ikcpAvailableWndInBytes s.kcp).toNat data.length = bytes
  by_cases hpos : bytes > 0
  · simp only [hpos, if_true]
    by_cases hok : (ikcpSend s.kcp (data.take bytes)).1 = 0
    · simp only [hok, if_true]
      exact (log_countP_same _ _ _ rfl).trans
        (flushWire_countP (fun _ => rfl) (fun _ _ => rfl) rfl _ _ currentMs)
    · simp only [hok, if_false]
      exact log_countP _ _ _
  · rw [if_neg hpos]

/-- The window takes no session over its mark. -/
theorem writeWindow_reach {s : KCPSession} (h : s.kcp.Inv) (hmark : s.kcp.mark < 2 ^ 32)
    (hpos : 0 < s.kcp.sndHghwat.toNat) (hopen : s.closed = false) (data : List UInt8)
    (currentMs : UInt32)
    (hreach : ikcpReachSndHghwat (s.writeWindow data currentMs).1.kcp = true) :
    ikcpReachSndHghwat s.kcp = true := by
  by_cases hsent : s.kcp.sentBytes data.length = 0
  · rwa [(writeWindow_none h.mss_pos hsent currentMs).2.1] at hreach
  · obtain ⟨hinv, hconfig⟩ :=
      (@writeWindow_steps (fun _ => False) s data currentMs hopen).1.inv h
    have hsame : (s.writeWindow data currentMs).1.kcp.mark = s.kcp.mark :=
      congrArg (fun config : Config => config.sndWnd.toNat + config.sndHghwat.toNat) hconfig
    have hle := sentTally_waitsnd_le h (sentBytes_ne_zero hsent).1 data.length
    rw [ikcpReachSndHghwat_iff (hsame ▸ hmark), toNat_ikcpWaitsnd hinv.send, hsame,
      (writeWindow_some h hsent currentMs).2.1] at hreach
    rw [IKCPCB.mark] at hreach
    omega

/-- What is appended queues the call where it takes the session to the mark. -/
theorem writeRemaining_highWaterMarks {s : KCPSession} (h : s.kcp.Inv) {reach : Bool}
    (hbefore : ikcpReachSndHghwat s.kcp = true → reach = true) (data : List UInt8) :
    (s.writeRemaining data reach).highWaterMarks = s.highWaterMarks +
      if s.callbacks.highWaterMark = true ∧ reach = false ∧
        ikcpReachSndHghwat (s.writeRemaining data reach).kcp = true then 1 else 0 := by
  have hnone : ¬ (s.callbacks.highWaterMark = true ∧ reach = false ∧
      ikcpReachSndHghwat s.kcp = true) := by
    rintro ⟨-, hfalse, hreach⟩
    rw [hbefore hreach] at hfalse
    cases hfalse
  unfold writeRemaining
  by_cases hpos : data.length > 0
  · simp only [hpos, if_true]
    have hmarks : (s.setKcp (ikcpAppend s.kcp data).2).highWaterMarks = s.highWaterMarks := rfl
    have hcallbacks : (s.setKcp (ikcpAppend s.kcp data).2).callbacks = s.callbacks := rfl
    by_cases hok : (ikcpAppend s.kcp data).1 = 0
    · simp only [hok, if_true]
      generalize s.setKcp (ikcpAppend s.kcp data).2 = s' at hmarks hcallbacks
      by_cases hnotify : (!reach) = true ∧ ikcpReachSndHghwat s'.kcp = true ∧
          s'.callbacks.highWaterMark = true
      · have hcall : s.callbacks.highWaterMark = true ∧ reach = false ∧
            ikcpReachSndHghwat s'.kcp = true := by
          rw [← hcallbacks]
          exact ⟨hnotify.2.2, by simpa using hnotify.1, hnotify.2.1⟩
        have hkcp (event : SessionEvent) : (s'.log event).kcp = s'.kcp := rfl
        rw [if_pos hnotify, hkcp, if_pos hcall, ← hmarks]
        exact log_countP _ _ _
      · have hquiet : ¬ (s.callbacks.highWaterMark = true ∧ reach = false ∧
            ikcpReachSndHghwat s'.kcp = true) := by
          rw [← hcallbacks]
          rintro ⟨hset, hbelow, hreach⟩
          exact hnotify ⟨by simp [hbelow], hreach, hset⟩
        rw [if_neg hnotify, if_neg hquiet]
        exact hmarks
    · have hsame : (ikcpAppend s.kcp data).2 = s.kcp := ikcpWrite_refused h.mss_pos hok
      have hkcp : ((s.setKcp s.kcp).log .assertFailed).kcp = s.kcp := rfl
      simp only [hok, if_false, hsame, hkcp]
      rw [if_neg hnone]
      exact log_countP _ _ _
  · rw [if_neg hpos, if_neg hnone]
    rfl

/-- A `Write` queues the call where it crosses the mark that the control block has. -/
theorem notifiesAt_mark {s : KCPSession} (h : s.kcp.Inv) (hmark : s.kcp.mark < 2 ^ 32)
    (hpos : 0 < s.kcp.sndHghwat.toNat) (hopen : s.closed = false) (data : List UInt8)
    (currentMs : UInt32) : s.NotifiesAt s.kcp.mark data currentMs := by
  obtain ⟨hinv, hconfig⟩ := (@writeInLoopThread_steps (fun _ => False) s data currentMs).inv h
  have hsame : (s.writeInLoopThread data currentMs).kcp.mark = s.kcp.mark :=
    congrArg (fun config : Config => config.sndWnd.toNat + config.sndHghwat.toNat) hconfig
  have hcross : s.Crosses s.kcp.mark data currentMs ↔ ikcpReachSndHghwat s.kcp = false ∧
      ikcpReachSndHghwat (s.writeInLoopThread data currentMs).kcp = true := by
    rw [ikcpReachSndHghwat_iff (hsame ▸ hmark), hsame, Crosses, ← not_le,
      ← ikcpReachSndHghwat_iff hmark, Bool.not_eq_true]
  -- the window first, then what is appended
  have hwindow := writeWindow_highWaterMarks (s.log (.written data)) data currentMs
  have hreach := @writeWindow_reach (s.log (.written data)) h hmark hpos hopen data currentMs
  have hwindowInv := ((@writeWindow_steps (fun _ => False) (s.log (.written data)) data currentMs
    hopen).1.inv h).1
  have hcallbacks :=
    (Undisturbed.composable.writeWindow (s.log (.written data)) data currentMs).callbacks
  have hrest := writeRemaining_highWaterMarks hwindowInv hreach
    (data.drop ((s.log (.written data)).writeWindow data currentMs).2)
  have hwrite : s.writeInLoopThread data currentMs =
      ((s.log (.written data)).writeWindow data currentMs).1.writeRemaining
        (data.drop ((s.log (.written data)).writeWindow data currentMs).2)
        (ikcpReachSndHghwat (s.log (.written data)).kcp) := by
    unfold writeInLoopThread
    exact if_neg (by simp [log, hopen])
  have hwritten : (s.log (.written data)).highWaterMarks = s.highWaterMarks :=
    s.log_countP SessionEvent.isHighWaterMark (.written data)
  rw [← hwrite, hwindow, hwritten, hcallbacks] at hrest
  rw [NotifiesAt, hcross]
  constructor
  · intro hnotify
    exact hrest.trans (congrArg (s.highWaterMarks + ·) (if_pos hnotify))
  · intro hquiet
    exact hrest.trans (congrArg (s.highWaterMarks + ·) (if_neg hquiet))

end KCPSession

/-- The mark that the parameters name. -/
def Params.mark (params : Params) : Nat := params.sndWnd.toInt.toNat + params.sndHghwat.toInt.toNat

/-- A positive `int32_t` keeps its value as an unsigned number. -/
theorem toNat_toUInt32_of_pos {x : Int32} (h : 0 < x) :
    x.toUInt32.toNat = x.toInt.toNat ∧ 0 < x.toInt ∧ x.toInt < 2 ^ 31 := by
  have hpos : 0 < x.toInt := Int32.lt_iff_toInt_lt.mp h
  refine ⟨?_, hpos, x.toInt_lt⟩
  rw [Int32.toNat_toUInt32_of_le (Int32.le_of_lt h), ← Int32.toNat_toInt]

/-- What `Initialize` makes of the parameters: both summands of the mark are the send window. -/
theorem KCPSession.Reached.spec {sessionId : UInt32} {peerAddress : InetAddress} {params : Params}
    {callbacks : SessionCallbacks} {s : KCPSession}
    (h : Reached sessionId peerAddress params callbacks s) (hwnd : 0 < params.sndWnd) :
    s.kcp.Inv ∧ s.callbacks = callbacks ∧ 0 < s.kcp.sndHghwat.toNat ∧
      s.kcp.mark = 2 * params.sndWnd.toInt.toNat := by
  obtain ⟨kcp, hkcp, hall⟩ := h.steps
  obtain ⟨hinv, hconfig⟩ := hall.inv (initializeControl_inv hkcp)
  have hsnd : kcp.sndWnd = params.sndWnd.toUInt32 := by
    have hside := congrArg SendSide.wnd (initializeControl_spec hkcp).sendSide_eq
    rwa [if_pos hwnd] at hside
  have hhgh : kcp.sndHghwat = params.sndWnd.toUInt32 := by
    obtain ⟨mtu, mss, headRoom, incr, rfl⟩ := initializeControl_form hkcp
    obtain ⟨_, _, _, heq⟩ := ikcpNodelay_form
      { ikcpWndsize (ikcpStream (ikcpCreate sessionId) params.streamMode) params.sndWnd
          params.rcvWnd with
        mtu, mss, headRoom, incr, sndHghwat := params.sndWnd.toUInt32 }
      params.nodelay params.interval params.resend params.nocongestion
    rw [heq]
  obtain ⟨htoNat, hpos, _⟩ := toNat_toUInt32_of_pos hwnd
  have hsnd' : s.kcp.sndWnd = params.sndWnd.toUInt32 := (congrArg Config.sndWnd hconfig).trans hsnd
  have hhgh' : s.kcp.sndHghwat = params.sndWnd.toUInt32 :=
    (congrArg Config.sndHghwat hconfig).trans hhgh
  refine ⟨hinv, hall.callbacks, ?_, ?_⟩
  · rw [hhgh', htoNat]
    omega
  · rw [IKCPCB.mark, hsnd', hhgh', htoNat]
    omega

/-- Two marks at which a `Write` notifies are both crossed or both not. -/
theorem KCPSession.NotifiesAt.crosses_iff {s : KCPSession} {mark mark' : Nat} {data : List UInt8}
    {currentMs : UInt32} (h : s.NotifiesAt mark data currentMs)
    (h' : s.NotifiesAt mark' data currentMs) (hset : s.callbacks.highWaterMark = true) :
    s.Crosses mark data currentMs ↔ s.Crosses mark' data currentMs := by
  rw [NotifiesAt] at h h'
  simp only [hset, true_and] at h h'
  constructor
  · intro hcross
    by_contra hnot
    have hone := h.1 hcross
    have hnone := h'.2 hnot
    omega
  · intro hcross
    by_contra hnot
    have hone := h'.1 hcross
    have hnone := h.2 hnot
    omega

/-- At least so many bytes wait: the segments are no larger than their size, and the last one has
its room left. -/
def Tally.Holds (t : Tally) (mss n : Nat) : Prop := n + t.room ≤ t.waiting * mss

namespace Tally.Holds

variable {t : Tally} {mss n : Nat}

/-- A message that starts a segment of its own gives up room only. -/
theorem sealed (h : t.Holds mss n) : t.sealed.Holds mss n :=
  (Nat.add_le_add_left (Nat.zero_le t.room) n).trans h

/-- A flush moves segments without losing any. -/
theorem flush (h : t.Holds mss n) (free : Nat) : (t.flush free).Holds mss n := by
  have hroom : (t.flush free).room ≤ t.room := by
    unfold Tally.flush
    split
    · exact Nat.zero_le _
    · exact le_rfl
  rw [Tally.Holds, Tally.flush_waiting]
  exact (Nat.add_le_add_left hroom n).trans h

/-- Bytes that are added wait as well. -/
theorem add (h : t.Holds mss n) (hm : 0 < mss) (k : Nat) : (t.add mss k).Holds mss (n + k) := by
  unfold Tally.Holds at h ⊢
  by_cases hle : k ≤ t.room
  · rw [Tally.add_of_le hle]
    unfold Tally.waiting at h ⊢
    simp only
    omega
  · rw [Tally.add_of_lt (not_le.mp hle)]
    have hcount := @le_ikcpFragmentCount_mul mss (k - t.room) hm
    unfold Tally.waiting at h ⊢
    simp only
    rw [← Nat.add_assoc, Nat.add_mul]
    omega

end Tally.Holds

/-- What goes through the window waits then. -/
theorem sentTally_holds {kcp : IKCPCB} (hm : 0 < kcp.mss.toNat) {n : Nat}
    (h : kcp.tally.Holds kcp.mss.toNat n) (len : Nat) :
    (kcp.sentTally len).Holds kcp.mss.toNat (n + kcp.sentBytes len) := by
  have hadd : ((if kcp.stream = 0 then kcp.tally.sealed else kcp.tally).add kcp.mss.toNat
      (kcp.sentBytes len)).Holds kcp.mss.toNat (n + kcp.sentBytes len) := by
    split
    · exact h.sealed.add hm _
    · exact h.add hm _
  unfold IKCPCB.sentTally
  dsimp only
  split
  · rename_i hzero
    rw [hzero]
    exact h
  split
  · exact hadd.flush _
  · exact hadd

namespace KCPSession

/-- A `Write` of one byte adds the byte, and at most one segment. -/
theorem writeByte_spec {s : KCPSession} (h : s.kcp.Inv) (hopen : s.closed = false) (byte : UInt8)
    (currentMs : UInt32) :
    (s.writeInLoopThread [byte] currentMs).closed = false ∧
      (s.writeInLoopThread [byte] currentMs).kcp.tally.waiting ≤ s.kcp.tally.waiting + 1 ∧
      ∀ n, s.kcp.tally.Holds s.kcp.mss.toNat n →
        (s.writeInLoopThread [byte] currentMs).kcp.tally.Holds s.kcp.mss.toNat (n + 1) := by
  obtain ⟨hclosed, -, htally⟩ := @writeInLoopThread_spec s h hopen [byte] Nat.one_pos currentMs
  obtain ⟨tally, hwaiting, hsent⟩ := sentTally_waiting s.kcp 1
  have hle := (sentBytes_le s.kcp 1).1
  have hrest : s.kcp.sentBytes 1 +
      (ikcpIntLen ([byte].drop (s.kcp.sentBytes 1))).toNat = 1 := by
    obtain hzero | hone : s.kcp.sentBytes 1 = 0 ∨ s.kcp.sentBytes 1 = 1 := by omega
    · rw [hzero]
      rfl
    · rw [hone]
      rfl
  have hsentAdd := (tally.add_waiting_le h.mss_pos (s.kcp.sentBytes 1)).2
  have hrestAdd := ((s.kcp.sentTally 1).add_waiting_le h.mss_pos
    (ikcpIntLen ([byte].drop (s.kcp.sentBytes 1))).toNat).2
  refine ⟨hclosed, ?_, fun n hn => ?_⟩
  · rw [htally]
    simp only [List.length_singleton]
    omega
  · have hholds := (sentTally_holds h.mss_pos hn 1).add h.mss_pos
      (ikcpIntLen ([byte].drop (s.kcp.sentBytes 1))).toNat
    rw [Nat.add_assoc, hrest] at hholds
    rw [htally]
    exact hholds

/-- That many writes of one byte, with nothing acknowledged in between. -/
def byteWrites (n : Nat) : List SessionTask := List.replicate n (.call (.write [0] 0))

/-- One more byte is one more `Write`. -/
theorem foldl_byteWrites_succ (s : KCPSession) (n : Nat) :
    (byteWrites (n + 1)).foldl SessionTask.run s =
      ((byteWrites n).foldl SessionTask.run s).writeInLoopThread [0] 0 := by
  rw [byteWrites, List.replicate_succ', List.foldl_append]
  rfl

/-- After that many writes so many bytes wait. -/
theorem byteWrites_spec {s : KCPSession} (h : s.kcp.Inv) (hopen : s.closed = false)
    (hnone : s.kcp.tally = ⟨0, 0, 0⟩) (n : Nat) :
    ((byteWrites n).foldl SessionTask.run s).kcp.Inv ∧
      ((byteWrites n).foldl SessionTask.run s).closed = false ∧
      ((byteWrites n).foldl SessionTask.run s).callbacks = s.callbacks ∧
      ((byteWrites n).foldl SessionTask.run s).kcp.config = s.kcp.config ∧
      ((byteWrites n).foldl SessionTask.run s).kcp.tally.Holds s.kcp.mss.toNat n := by
  induction n with
  | zero =>
      refine ⟨h, hopen, rfl, rfl, ?_⟩
      change s.kcp.tally.Holds s.kcp.mss.toNat 0
      rw [hnone]
      exact Nat.zero_le _
  | succ n ih =>
      obtain ⟨hinv, hclosed, hcallbacks, hconfig, hholds⟩ := ih
      rw [foldl_byteWrites_succ]
      generalize (byteWrites n).foldl SessionTask.run s = s' at *
      have hsteps := @writeInLoopThread_steps (fun _ => False) s' [0] 0
      obtain ⟨hinv', hconfig'⟩ := hsteps.inv hinv
      obtain ⟨hclosed', -, hadd⟩ := writeByte_spec hinv hclosed 0 0
      have hmss : s'.kcp.mss = s.kcp.mss := congrArg Config.mss hconfig
      rw [hmss] at hadd
      exact ⟨hinv', hclosed', hsteps.callbacks.trans hcallbacks, hconfig'.trans hconfig,
        hadd n hholds⟩

end KCPSession

/-- A count that grows by at most one reaches every number on its way. -/
theorem exists_step_to {f : Nat → Nat} {m : Nat} (hstart : f 0 < m)
    (hstep : ∀ n, f (n + 1) ≤ f n + 1) (hreach : ∃ n, m ≤ f n) :
    ∃ n, f n < m ∧ f (n + 1) = m := by
  obtain ⟨n, hn⟩ := hreach
  induction n with
  | zero => exact absurd hn (not_le.mpr hstart)
  | succ n ih =>
      by_cases hbefore : m ≤ f n
      · exact ih hbefore
      · have hgrow := hstep n
        exact ⟨n, not_le.mp hbefore, by omega⟩

namespace KCPSession

variable {s : KCPSession} (h : s.kcp.Inv) (hopen : s.closed = false)
  (hnone : s.kcp.tally = ⟨0, 0, 0⟩)
include h hopen hnone

/-- A new session that writes byte by byte comes to every number of segments. -/
theorem exists_byteWrites {m : Nat} (hm : 0 < m) :
    ∃ n, ((byteWrites n).foldl SessionTask.run s).kcp.tally.waiting < m ∧
      ((byteWrites (n + 1)).foldl SessionTask.run s).kcp.tally.waiting = m := by
  refine @exists_step_to
    (fun n => ((byteWrites n).foldl SessionTask.run s).kcp.tally.waiting) m ?_ ?_ ?_
  · have hzero : s.kcp.tally.waiting = 0 := congrArg Tally.waiting hnone
    exact hzero.trans_lt hm
  · intro n
    obtain ⟨hinv, hclosed, -⟩ := byteWrites_spec h hopen hnone n
    simp only [foldl_byteWrites_succ]
    exact (writeByte_spec hinv hclosed 0 0).2.1
  · refine ⟨m * s.kcp.mss.toNat, ?_⟩
    obtain ⟨-, -, -, -, hholds⟩ := byteWrites_spec h hopen hnone (m * s.kcp.mss.toNat)
    unfold Tally.Holds at hholds
    exact Nat.le_of_mul_le_mul_right (by omega) h.mss_pos

/-- If all these writes notify at a mark, it is the one that the control block has. -/
theorem mark_eq_of_notifies (hset : s.callbacks.highWaterMark = true) (hown : s.kcp.mark < 2 ^ 32)
    (hpos : 0 < s.kcp.sndHghwat.toNat) {mark : Nat} (hmark : 0 < mark)
    (hnotifies : ∀ n, ((byteWrites n).foldl SessionTask.run s).NotifiesAt mark [0] 0) :
    mark = s.kcp.mark := by
  have hown' : 0 < s.kcp.mark := Nat.add_pos_right _ hpos
  -- the write that takes the session to the lower one of the two marks
  obtain ⟨n, hbefore, hafter⟩ := exists_byteWrites h hopen hnone (lt_min hmark hown')
  obtain ⟨hinv, hclosed, hcallbacks, hconfig, -⟩ := byteWrites_spec h hopen hnone n
  obtain ⟨hinv', -⟩ := byteWrites_spec h hopen hnone (n + 1)
  have hwait := toNat_ikcpWaitsnd hinv.send
  have hwait' := toNat_ikcpWaitsnd hinv'.send
  rw [hafter, foldl_byteWrites_succ] at hwait'
  have hnamed := hnotifies n
  generalize (byteWrites n).foldl SessionTask.run s = s' at *
  have hsame : s'.kcp.mark = s.kcp.mark :=
    congrArg (fun config : Config => config.sndWnd.toNat + config.sndHghwat.toNat) hconfig
  have hhghwat : s'.kcp.sndHghwat = s.kcp.sndHghwat := congrArg Config.sndHghwat hconfig
  have hnotifies' := notifiesAt_mark hinv (hsame ▸ hown) (hhghwat ▸ hpos) hclosed [0] 0
  have hboth := hnamed.crosses_iff hnotifies' (by rw [hcallbacks, hset])
  rw [Crosses, Crosses, hsame, hwait, hwait', Nat.mod_eq_of_lt (by omega),
    Nat.mod_eq_of_lt (by omega)] at hboth
  omega

end KCPSession

/-- The end of a run is one of its moments. -/
theorem SessionTask.foldl_mem_runMoments (s : KCPSession) (tasks : List SessionTask) :
    tasks.foldl SessionTask.run s ∈ s :: SessionTask.runMoments s tasks := by
  induction tasks generalizing s with
  | nil => exact List.mem_singleton_self s
  | cons task tasks ih =>
      have hrun : task.run s ∈ task.moments s := by
        cases task <;> simp [SessionTask.moments]
      refine List.mem_cons_of_mem _ (List.mem_append.mpr ?_)
      rcases List.mem_cons.mp (ih (task.run s)) with heq | hmem
      · rw [List.foldl_cons, heq]
        exact Or.inl hrun
      · exact Or.inr hmem

/-- Where positive parameters are accepted, every `Write` of every open session notifies at the
mark that they name exactly when they name the same number twice. -/
theorem highWater_iff (sessionId : UInt32) (peerAddress : InetAddress) (params : Params)
    (hwnd : 0 < params.sndWnd) (hhghwat : 0 < params.sndHghwat)
    (haccepted : (initializeControl sessionId params).isSome = true) :
    (∀ (callbacks : SessionCallbacks) (s : KCPSession),
      KCPSession.Reached sessionId peerAddress params callbacks s → s.closed = false →
      ∀ (data : List UInt8) (currentMs : UInt32), s.NotifiesAt params.mark data currentMs) ↔
      params.sndHghwat = params.sndWnd := by
  obtain ⟨_, hwndPos, hwndLt⟩ := toNat_toUInt32_of_pos hwnd
  obtain ⟨_, hhghwatPos, hhghwatLt⟩ := toNat_toUInt32_of_pos hhghwat
  constructor
  · intro hnotifies
    obtain ⟨kcp, hkcp⟩ := Option.isSome_iff_exists.mp haccepted
    -- a session without a callback for the connection has nothing but its control block
    let s₀ : KCPSession := { kcp, sessionId, peerAddress, callbacks := { connection := false } }
    have hstart : KCPSession.initializeWith sessionId peerAddress params
        { connection := false } [] = some s₀ := by
      rw [KCPSession.initializeWith, hkcp]
      rfl
    have hnone : s₀.kcp.tally = ⟨0, 0, 0⟩ :=
      congrArg SendSide.tally (initializeControl_spec hkcp).sendSide_eq
    have hreached (n : Nat) : KCPSession.Reached sessionId peerAddress params
        { connection := false } ((KCPSession.byteWrites n).foldl SessionTask.run s₀) :=
      ⟨[], s₀, KCPSession.byteWrites n, hstart, SessionTask.foldl_mem_runMoments s₀ _⟩
    obtain ⟨hinv, -, hpos, hmark⟩ := (hreached 0).spec hwnd
    have hnamed : 0 < params.mark := by
      rw [Params.mark]
      omega
    have hmarks : params.mark = s₀.kcp.mark :=
      KCPSession.mark_eq_of_notifies hinv rfl hnone rfl (by rw [hmark]; omega) hpos hnamed
        fun n => hnotifies _ _ (hreached n)
          (KCPSession.byteWrites_spec hinv rfl hnone n).2.1 [0] 0
    rw [show s₀.kcp.mark = _ from hmark, Params.mark] at hmarks
    exact Int32.toInt_inj.mp (by omega)
  · intro heq callbacks s hreached hopen data currentMs
    obtain ⟨hinv, -, hpos, hmark⟩ := hreached.spec hwnd
    have hsame : params.mark = s.kcp.mark := by
      rw [hmark, Params.mark, heq]
      omega
    rw [hsame]
    exact KCPSession.notifiesAt_mark hinv (by omega) hpos hopen data currentMs

/-- Parameters that name their send window as the high-water mark as well. -/
def evenParams : Params := { sessionParams with sndHghwat := 128 }

/-- Parameters whose margin is the send window, and a `Write` that keeps to the mark. -/
theorem highWater_iff_evenParams :
    ∃ s, KCPSession.initializeWith 7 ⟨"10.0.0.1:9000"⟩ evenParams {} [] = some s ∧
      s.NotifiesAt evenParams.mark [1, 2, 3] 0 := by
  have hrun : (KCPSession.initializeWith 7 ⟨"10.0.0.1:9000"⟩ evenParams {} []).map
      KCPSession.closed = some false := by
    decide +kernel
  obtain ⟨s, hstart, hopen⟩ := Option.map_eq_some_iff.mp hrun
  have hreached : KCPSession.Reached 7 ⟨"10.0.0.1:9000"⟩ evenParams {} s :=
    ⟨[], s, [], hstart, List.mem_singleton_self s⟩
  exact ⟨s, hstart, (highWater_iff 7 ⟨"10.0.0.1:9000"⟩ evenParams (by decide) (by decide)
    (by decide +kernel)).mpr rfl {} s hreached hopen [1, 2, 3] 0⟩

/-- Parameters with a mark of three segments, whose session has one of four. -/
def lowMarkParams : Params := { sndWnd := 2, sndHghwat := 1, mtu := 50 }

/-- Three segments take a new session to the mark, and nothing is queued. -/
theorem not_highWater_lowMarkParams :
    ∃ s, KCPSession.Reached 7 ⟨"10.0.0.1:9000"⟩ lowMarkParams {} s ∧ s.closed = false ∧
      ¬ s.NotifiesAt lowMarkParams.mark (List.replicate 78 0) 0 := by
  have hrun : (KCPSession.initializeWith 7 ⟨"10.0.0.1:9000"⟩ lowMarkParams {} []).map
      (fun s =>
        let s' := s.writeInLoopThread (List.replicate 78 0) 0
        (s.closed, s.callbacks.highWaterMark, ikcpWaitsnd s.kcp, s.highWaterMarks,
          ikcpWaitsnd s'.kcp, s'.highWaterMarks)) = some (false, true, 0, 0, 3, 0) := by
    decide +kernel
  obtain ⟨s, hstart, hstate⟩ := Option.map_eq_some_iff.mp hrun
  simp only [Prod.mk.injEq] at hstate
  obtain ⟨hopen, hset, hbefore, hnone, hafter, hstill⟩ := hstate
  refine ⟨s, ⟨[], s, [], hstart, List.mem_singleton_self s⟩, hopen, fun hnotifies => ?_⟩
  have hcross : s.Crosses lowMarkParams.mark (List.replicate 78 0) 0 := by
    rw [KCPSession.Crosses, hbefore, hafter]
    decide
  have hone := hnotifies.1 ⟨hset, hcross⟩
  rw [hstill, hnone] at hone
  exact absurd hone (by decide)

end CodeBlocks.Kcp
