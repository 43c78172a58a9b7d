import CodeBlocks.Kcp.Invariant.Reachable
import CodeBlocks.Kcp.Invariant.Tally
import CodeBlocks.Kcp.Session.Survival

/-!
# Completions that are still to come

A `Write` that the window takes as a whole queues its completion at once. Any
other `Write` relies on a later drain, which only happens while more segments
wait than the send window holds. The window that takes bytes is the smaller of
the send window and the remote one, and the rest of a `Write` may fit into the
last queued segment, so there are lengths for which neither happens. The counts
of the sending half say exactly which.
-/

namespace CodeBlocks.Kcp

/-- Whether a completion is outstanding after an event. -/
def SessionEvent.awaits (awaiting : Bool) : SessionEvent → Bool
  | .written _ => true
  | .writeComplete => false
  | _ => awaiting

/-- The most recent `Write` ended without a completion, and none has been queued since. -/
def KCPSession.awaiting (s : KCPSession) : Bool := s.events.foldl SessionEvent.awaits false

/-- A completion that is outstanding will be queued by a drain. -/
def KCPSession.Settled (s : KCPSession) : Prop :=
  s.closed = false → s.awaiting = true → ikcpNeedDrain s.kcp = true

/-- `ikcp_send` takes this many bytes. -/
def IKCPCB.Sends (kcp : IKCPCB) (len : Nat) : Prop :=
  len < 2 ^ 31 ∧ (kcp.stream = 0 → ikcpFragmentCount kcp.mss.toNat len < ikcpWndRcv.toNat)

instance (kcp : IKCPCB) (len : Nat) : Decidable (kcp.Sends len) :=
  inferInstanceAs (Decidable (_ ∧ _))

/-- The bytes of a `Write` that go through the window. -/
def IKCPCB.sentBytes (kcp : IKCPCB) (len : Nat) : Nat :=
  let bytes := min (ikcpAvailableWndInBytes kcp).toNat len
  if ikcpNeedDrain kcp = false ∧ kcp.Sends bytes then bytes else 0

/-- The counts when a `Write` comes to append the bytes that did not go through the window. -/
def IKCPCB.sentTally (kcp : IKCPCB) (len : Nat) : Tally :=
  let sent := kcp.sentBytes len
  if sent = 0 then kcp.tally
  else
    let tally := (if kcp.stream = 0 then kcp.tally.sealed else kcp.tally).add kcp.mss.toNat sent
    if ikcpAvailableSndwndInBytes kcp > 0 then tally.flush (ikcpFlushFree kcp) else tally

/-- A `Write` of this length is completed at once or leaves more segments waiting than the send
window holds: a drain is due already, or the window takes all bytes, or those that it does not take
fill the last queued segment and all segments that the send window still admits. -/
def IKCPCB.Settles (kcp : IKCPCB) (len : Nat) : Prop :=
  ikcpNeedDrain kcp = true ∨ kcp.sentBytes len = len ∨
    len - kcp.sentBytes len < 2 ^ 31 ∧
      (kcp.sentTally len).room +
        (kcp.sndWnd.toNat - (kcp.sentTally len).waiting) * kcp.mss.toNat < len - kcp.sentBytes len

/-- `ikcp_send` answers zero exactly for the lengths that it takes. -/
theorem ikcpSend_eq_zero_iff {kcp : IKCPCB} {data : List UInt8} (hlt : data.length < 2 ^ 32) :
    (ikcpSend kcp data).1 = 0 ↔ kcp.Sends data.length := by
  unfold ikcpSend ikcpWrite IKCPCB.Sends
  by_cases hneg : 2 ^ 31 ≤ data.length
  · rw [if_pos (ikcpIntLen_neg hneg hlt)]
    constructor
    · intro h
      cases h
    · intro h
      omega
  have hlen := ikcpIntLen_eq (not_le.mp hneg)
  rw [if_neg (by omega), hlen, Int.toNat_natCast, List.take_length]
  by_cases hstream : kcp.stream = 0
  · simp only [hstream, ne_eq, not_true_eq_false, decide_false, Bool.or_false, Bool.false_eq_true,
      ite_false, false_and, Bool.not_false, true_and, true_implies]
    split
    · rename_i hcount
      constructor
      · intro h
        cases h
      · intro h
        omega
    · rename_i hcount
      exact ⟨fun _ => ⟨not_le.mp hneg, not_le.mp hcount⟩, fun _ => rfl⟩
  · simp only [hstream, ne_eq, not_false_eq_true, decide_true, Bool.true_or, ite_true, true_and,
      Bool.not_true, Bool.false_eq_true, false_and, ite_false, false_implies, and_true]
    split
    · exact ⟨fun _ => not_le.mp hneg, fun _ => rfl⟩
    · exact ⟨fun _ => not_le.mp hneg, fun _ => rfl⟩

/-- Sending in either mode, on the counts. -/
theorem ikcpSend_tally {kcp : IKCPCB} (hm : 0 < kcp.mss.toNat) {data : List UInt8}
    (hpos : 0 < data.length) (hlt : data.length < 2 ^ 31) (hok : (ikcpSend kcp data).1 = 0) :
    (ikcpSend kcp data).2.tally =
      (if kcp.stream = 0 then kcp.tally.sealed else kcp.tally).add kcp.mss.toNat data.length := by
  have hlen := ikcpIntLen_eq hlt
  split
  · rename_i hstream
    have hmessage := ikcpWrite_tally_message hm hstream (by rw [hlen]; omega) hok
    rwa [hlen, Int.toNat_natCast] at hmessage
  · rename_i hstream
    have hwrite := @ikcpWrite_tally_stream kcp hm data false (by simpa using hstream)
    rwa [hlen, Int.toNat_natCast] at hwrite

/-- A call that is refused changes nothing. -/
theorem ikcpWrite_refused {kcp : IKCPCB} (hm : 0 < kcp.mss.toNat) {data : List UInt8}
    {alwaysStream : Bool} (h : (ikcpWrite kcp data alwaysStream).1 ≠ 0) :
    (ikcpWrite kcp data alwaysStream).2 = kcp := by
  rcases ikcpWrite_cases hm data alwaysStream with ⟨_, heq, _⟩ | ⟨queue, added, _, heq⟩
  · exact heq
  · exact absurd (congrArg Prod.fst heq) h

/-- Writing leaves the numbers that a flush reads. -/
theorem ikcpWrite_ikcpFlushFree (kcp : IKCPCB) (data : List UInt8) (alwaysStream : Bool) :
    ikcpFlushFree (ikcpWrite kcp data alwaysStream).2 = ikcpFlushFree kcp := by
  simp only [ikcpWrite]
  repeat' split
  all_goals rfl

/-- The free window and what waits fit into the send window. -/
theorem ikcpAvailableWndInMss_le {kcp : IKCPCB} (hidle : ikcpNeedDrain kcp = false) :
    (ikcpWaitsnd kcp).toNat + (ikcpAvailableWndInMss kcp false).toNat ≤ kcp.sndWnd.toNat := by
  have hwait : (ikcpWaitsnd kcp).toNat ≤ kcp.sndWnd.toNat := by
    have hnot := of_decide_eq_false hidle
    exact UInt32.le_iff_toNat_le.mp (UInt32.not_lt.mp hnot)
  have hwnd : (ikcpCalcWnd kcp false).toNat ≤ kcp.sndWnd.toNat := by
    simp only [ikcpCalcWnd, Bool.false_eq_true, false_and, ite_false, imin]
    split
    · exact le_rfl
    · rename_i hgt
      exact (UInt32.lt_iff_toNat_lt.mp (UInt32.not_le.mp hgt)).le
  simp only [ikcpAvailableWndInMss]
  split
  · rename_i hfree
    have hlt := UInt32.lt_iff_toNat_lt.mp hfree
    rw [UInt32.toNat_sub_of_le _ _ (UInt32.le_iff_toNat_le.mpr hlt.le)]
    omega
  · exact hwait

/-- Of bytes that `ikcp_send` takes none go only when the window admits none. -/
theorem sentBytes_eq_zero {kcp : IKCPCB} {len : Nat} (hidle : ikcpNeedDrain kcp = false)
    (h : kcp.sentBytes len = 0) (hsends : kcp.Sends (min (ikcpAvailableWndInBytes kcp).toNat len)) :
    min (ikcpAvailableWndInBytes kcp).toNat len = 0 := by
  rwa [IKCPCB.sentBytes, if_pos ⟨hidle, hsends⟩] at h

/-- Where bytes go through the window, it is open and the send is taken. -/
theorem sentBytes_ne_zero {kcp : IKCPCB} {len : Nat} (h : kcp.sentBytes len ≠ 0) :
    ikcpNeedDrain kcp = false ∧
      kcp.sentBytes len = min (ikcpAvailableWndInBytes kcp).toNat len ∧
      kcp.Sends (kcp.sentBytes len) := by
  unfold IKCPCB.sentBytes at h ⊢
  dsimp only at h ⊢
  by_cases hopen : ikcpNeedDrain kcp = false ∧
      kcp.Sends (min (ikcpAvailableWndInBytes kcp).toNat len)
  · rw [if_pos hopen]
    exact ⟨hopen.1, rfl, hopen.2⟩
  · rw [if_neg hopen] at h
    exact absurd rfl h

/-- What goes through the window fits the `Write` and the free segments. -/
theorem sentBytes_le (kcp : IKCPCB) (len : Nat) :
    kcp.sentBytes len ≤ len ∧
      kcp.sentBytes len ≤ (ikcpAvailableWndInMss kcp false).toNat * kcp.mss.toNat := by
  have hbytes : (ikcpAvailableWndInBytes kcp).toNat ≤
      (ikcpAvailableWndInMss kcp false).toNat * kcp.mss.toNat := by
    rw [ikcpAvailableWndInBytes, UInt32.toNat_mul]
    exact Nat.mod_le _ _
  unfold IKCPCB.sentBytes
  dsimp only
  split
  · exact ⟨Nat.min_le_right _ _, (Nat.min_le_left _ _).trans hbytes⟩
  · exact ⟨Nat.zero_le _, Nat.zero_le _⟩

/-- The segments that wait after the window has taken its bytes. -/
theorem sentTally_waiting (kcp : IKCPCB) (len : Nat) :
    ∃ tally : Tally, tally.waiting = kcp.tally.waiting ∧
      (kcp.sentTally len).waiting = (tally.add kcp.mss.toNat (kcp.sentBytes len)).waiting := by
  unfold IKCPCB.sentTally
  dsimp only
  split
  · rename_i hzero
    exact ⟨kcp.tally, rfl, by rw [hzero, Tally.add_zero]⟩
  refine ⟨if kcp.stream = 0 then kcp.tally.sealed else kcp.tally, ?_, ?_⟩
  · split <;> rfl
  · split
    · exact Tally.flush_waiting _ _
    · rfl

/-- The window takes no more segments than it has free. -/
theorem sentTally_waiting_le_add {kcp : IKCPCB} (hm : 0 < kcp.mss.toNat) (len : Nat) :
    (kcp.sentTally len).waiting ≤
      kcp.tally.waiting + (ikcpAvailableWndInMss kcp false).toNat := by
  obtain ⟨tally, hwaiting, hsent⟩ := sentTally_waiting kcp len
  have hbytes := (sentBytes_le kcp len).2
  rw [hsent, ← hwaiting]
  apply not_lt.mp
  rw [Tally.lt_add_waiting_iff hm (Nat.le_add_right _ _), Nat.add_sub_cancel_left]
  omega

/-- What waits then is no more than the send window. -/
theorem sentTally_waiting_le {kcp : IKCPCB} (h : kcp.Inv) (hidle : ikcpNeedDrain kcp = false)
    (hcount : kcp.tally.waiting < 2 ^ 32) (len : Nat) :
    (kcp.sentTally len).waiting ≤ kcp.sndWnd.toNat := by
  have hwait := toNat_ikcpWaitsnd h.send
  rw [Nat.mod_eq_of_lt hcount] at hwait
  have hfree := ikcpAvailableWndInMss_le hidle
  have hle := sentTally_waiting_le_add h.mss_pos len
  omega

namespace KCPSession

/-- The last event decides. -/
theorem log_awaiting (s : KCPSession) (event : SessionEvent) :
    (s.log event).awaiting = event.awaits s.awaiting := by
  rw [awaiting, log, List.foldl_append]
  rfl

/-- An event that concerns no completion, logged under a condition. -/
theorem log_awaiting_same (c : Prop) [Decidable c] (s : KCPSession) {event : SessionEvent}
    (h : event.awaits s.awaiting = s.awaiting) :
    (if c then s.log event else s).awaiting = s.awaiting := by
  split
  · rw [log_awaiting, h]
  · rfl

/-- A flush settles no write. -/
@[simp] theorem flush_awaiting (s : KCPSession) (currentMs : UInt32) :
    (s.flush currentMs).awaiting = s.awaiting := by
  have houtputs (bodies : List (List UInt8)) (awaiting : Bool) :
      (bodies.map (SessionEvent.output · s.peerAddress)).foldl SessionEvent.awaits awaiting =
        awaiting := by
    induction bodies with
    | nil => rfl
    | cons body bodies ih => exact ih
  rw [awaiting, flush, List.foldl_append, List.foldl_cons, houtputs]
  rfl

@[simp] theorem flushTxQueue_awaiting (s : KCPSession) : s.flushTxQueue.awaiting = s.awaiting :=
  log_awaiting_same _ s rfl

/-- A flush that is made when there is room on the wire. -/
theorem flushWire_tally (c : Prop) [Decidable c] (s : KCPSession) (h : s.kcp.sendSide.Inv)
    (currentMs : UInt32) :
    ∃ s' : KCPSession, (if c then (s.flush currentMs).flushTxQueue else s) = s' ∧
      s'.kcp.tally = (if c then s.kcp.tally.flush (ikcpFlushFree s.kcp) else s.kcp.tally) ∧
      s'.awaiting = s.awaiting ∧ s'.callbacks = s.callbacks := by
  refine ⟨_, rfl, ?_⟩
  split
  · have hcallbacks : ((s.flush currentMs).flushTxQueue).callbacks = s.callbacks := by
      unfold flushTxQueue
      split <;> rfl
    rw [flushTxQueue_kcp, flushTxQueue_awaiting, flush_awaiting, ← ikcpFlush_tally h currentMs]
    exact ⟨rfl, rfl, hcallbacks⟩
  · exact ⟨rfl, rfl, rfl⟩

/-- Nothing goes through the window: a drain is due, the window is shut, or the send is refused. -/
theorem writeWindow_none {s : KCPSession} (hm : 0 < s.kcp.mss.toNat) {data : List UInt8}
    (hsent : s.kcp.sentBytes data.length = 0) (currentMs : UInt32) :
    (s.writeWindow data currentMs).2 = 0 ∧ (s.writeWindow data currentMs).1.kcp = s.kcp ∧
      (s.writeWindow data currentMs).1.awaiting = s.awaiting := by
  unfold writeWindow
  by_cases hdrain : ikcpNeedDrain s.kcp = true
  · rw [if_pos hdrain]
    exact ⟨rfl, rfl, rfl⟩
  rw [if_neg hdrain]
  have hrefused := sentBytes_eq_zero (by simpa using hdrain) hsent
  have hle : min (ikcpAvailableWndInBytes s.kcp).toNat data.length ≤ data.length :=
    Nat.min_le_right _ _
  have hlt : min (ikcpAvailableWndInBytes s.kcp).toNat data.length < 2 ^ 32 :=
    lt_of_le_of_lt (Nat.min_le_left _ _) (UInt32.toNat_lt _)
  generalize min (ikcpAvailableWndInBytes s.kcp).toNat data.length = bytes at hrefused hle hlt ⊢
  by_cases hsome : bytes > 0
  · have htake : (data.take bytes).length = bytes := by
      rw [List.length_take]
      omega
    have hfails : (ikcpSend s.kcp (data.take bytes)).1 ≠ 0 := by
      rw [ne_eq, ikcpSend_eq_zero_iff (by rw [htake]; exact hlt), htake]
      intro hsends
      have hzero := hrefused hsends
      omega
    simp only [hsome, ite_true, hfails, ite_false]
    exact ⟨trivial, ikcpWrite_refused hm hfails, log_awaiting _ _⟩
  · simp only [hsome, ite_false]
    exact ⟨trivial, trivial, trivial⟩

/-- What goes through the window, and what it does to the counts and to the completion. -/
theorem writeWindow_some {s : KCPSession} (h : s.kcp.Inv) {data : List UInt8}
    (hsent : s.kcp.sentBytes data.length ≠ 0) (currentMs : UInt32) :
    (s.writeWindow data currentMs).2 = s.kcp.sentBytes data.length ∧
      (s.writeWindow data currentMs).1.kcp.tally = s.kcp.sentTally data.length ∧
      (s.callbacks.writeComplete = true → (s.writeWindow data currentMs).1.awaiting =
        (s.awaiting && decide (s.kcp.sentBytes data.length ≠ data.length))) := by
  obtain ⟨hidle, hbytes, hsends⟩ := sentBytes_ne_zero hsent
  have hle := (sentBytes_le s.kcp data.length).1
  have hdrain : ¬ ikcpNeedDrain s.kcp = true := by
    rw [hidle]
    exact Bool.false_ne_true
  unfold writeWindow IKCPCB.sentTally
  rw [if_neg hdrain, ← hbytes]
  generalize s.kcp.sentBytes data.length = bytes at hsent hsends hle ⊢
  have hsome : bytes > 0 := Nat.pos_of_ne_zero hsent
  have htake : (data.take bytes).length = bytes := by
    rw [List.length_take]
    omega
  have hok : (ikcpSend s.kcp (data.take bytes)).1 = 0 := by
    have hlt := hsends.1
    rw [ikcpSend_eq_zero_iff (by omega), htake]
    exact hsends
  have htally := ikcpSend_tally h.mss_pos (by rw [htake]; exact hsome)
    (by rw [htake]; exact hsends.1) hok
  have hinv : (ikcpSend s.kcp (data.take bytes)).2.sendSide.Inv :=
    ikcpWrite_inv h.mss_pos h.send (data.take bytes) false
  have hfree : ikcpFlushFree (ikcpSend s.kcp (data.take bytes)).2 = ikcpFlushFree s.kcp :=
    ikcpWrite_ikcpFlushFree s.kcp (data.take bytes) false
  rw [htake] at htally
  simp only [hsome, hok, ite_true, if_neg hsent, ← htally]
  generalize (ikcpSend s.kcp (data.take bytes)).2 = kcp at hinv hfree
  obtain ⟨s', hs', htally', hawaiting, hcallbacks⟩ := flushWire_tally
    (ikcpAvailableSndwndInBytes s.kcp > 0) (s.setKcp kcp) hinv currentMs
  change s'.kcp.tally = (if ikcpAvailableSndwndInBytes s.kcp > 0 then
    kcp.tally.flush (ikcpFlushFree kcp) else kcp.tally) at htally'
  rw [hfree] at htally'
  rw [hs', hcallbacks]
  refine ⟨trivial, ?_, fun hcomplete => ?_⟩
  · split <;> exact htally'
  by_cases hall : data.length - bytes = 0
  · have hwhole : decide (bytes ≠ data.length) = false := decide_eq_false (by omega)
    rw [if_pos ⟨hall, hcomplete⟩, hwhole, Bool.and_false, log_awaiting]
    rfl
  · have hpart : decide (bytes ≠ data.length) = true := decide_eq_true (by omega)
    rw [if_neg (fun hboth => hall hboth.1), hpart, Bool.and_true]
    exact hawaiting

/-- What the window takes, the counts that it leaves and the completion that it queues. -/
theorem writeWindow_spec {s : KCPSession} (h : s.kcp.Inv) {data : List UInt8}
    (hpos : 0 < data.length) (currentMs : UInt32) :
    (s.writeWindow data currentMs).2 = s.kcp.sentBytes data.length ∧
      (s.writeWindow data currentMs).1.kcp.tally = s.kcp.sentTally data.length ∧
      (s.callbacks.writeComplete = true → (s.writeWindow data currentMs).1.awaiting =
        (s.awaiting && decide (s.kcp.sentBytes data.length ≠ data.length))) := by
  by_cases hsent : s.kcp.sentBytes data.length = 0
  · obtain ⟨hbytes, hkcp, hawaiting⟩ := writeWindow_none h.mss_pos hsent currentMs
    rw [hbytes, hkcp, hawaiting, IKCPCB.sentTally, hsent, if_pos rfl, decide_eq_true (by omega),
      Bool.and_true]
    exact ⟨rfl, rfl, fun _ => rfl⟩
  · exact writeWindow_some h hsent currentMs

/-- The rest is appended and never completes the `Write`. -/
theorem writeRemaining_spec {s : KCPSession} (hm : 0 < s.kcp.mss.toNat) (data : List UInt8)
    (reach : Bool) :
    (s.writeRemaining data reach).kcp.tally =
        s.kcp.tally.add s.kcp.mss.toNat (ikcpIntLen data).toNat ∧
      (s.writeRemaining data reach).awaiting = s.awaiting ∧
      (s.writeRemaining data reach).closed = s.closed := by
  have happend := ikcpWrite_tally_stream hm data (Bool.or_true (decide (s.kcp.stream ≠ 0)))
  unfold writeRemaining
  split
  · simp only
    split
    · split
      · exact ⟨happend, log_awaiting _ _, rfl⟩
      · exact ⟨happend, rfl, rfl⟩
    · exact ⟨happend, log_awaiting _ _, rfl⟩
  · rename_i hnone
    have hnil : data = [] := List.eq_nil_of_length_eq_zero (by omega)
    rw [hnil, show (ikcpIntLen []).toNat = 0 from rfl, Tally.add_zero]
    exact ⟨rfl, rfl, rfl⟩

/-- What a `Write` to an open session leaves. -/
theorem writeInLoopThread_spec {s : KCPSession} (h : s.kcp.Inv) (hopen : s.closed = false)
    {data : List UInt8} (hpos : 0 < data.length) (currentMs : UInt32) :
    (s.writeInLoopThread data currentMs).closed = false ∧
      (s.callbacks.writeComplete = true → (s.writeInLoopThread data currentMs).awaiting =
        decide (s.kcp.sentBytes data.length ≠ data.length)) ∧
      (s.writeInLoopThread data currentMs).kcp.tally =
        (s.kcp.sentTally data.length).add s.kcp.mss.toNat
          (ikcpIntLen (data.drop (s.kcp.sentBytes data.length))).toNat := by
  obtain ⟨hsent, htally, hawaiting⟩ := @writeWindow_spec (s.log (.written data)) h data hpos
    currentMs
  obtain ⟨hsteps, hstill⟩ := @writeWindow_steps (fun _ => False) (s.log (.written data)) data
    currentMs hopen
  obtain ⟨hinv, hconfig⟩ := hsteps.inv h
  have hmss : ((s.log (.written data)).writeWindow data currentMs).1.kcp.mss = s.kcp.mss :=
    congrArg Config.mss hconfig
  have hnot : ¬ (s.log (.written data)).closed = true := by
    rw [show (s.log (.written data)).closed = s.closed from rfl, hopen]
    exact Bool.false_ne_true
  rw [log_awaiting, SessionEvent.awaits, Bool.true_and] at hawaiting
  unfold writeInLoopThread
  dsimp only
  rw [if_neg hnot]
  obtain ⟨hrest, hsame, hclosed⟩ := writeRemaining_spec hinv.mss_pos
    (data.drop ((s.log (.written data)).writeWindow data currentMs).2)
    (ikcpReachSndHghwat (s.log (.written data)).kcp)
  refine ⟨hclosed.trans hstill, fun hcomplete => hsame.trans (hawaiting hcomplete), ?_⟩
  rw [hrest, hsent, htally, hmss]
  rfl

/-- A `Write` to an open session leaves it settled exactly when its length settles. -/
theorem writeInLoopThread_settled_iff {s : KCPSession} (h : s.kcp.Inv)
    (hcomplete : s.callbacks.writeComplete = true) (hopen : s.closed = false) {data : List UInt8}
    (hpos : 0 < data.length) (hcount : s.kcp.tally.waiting + data.length < 2 ^ 32)
    (currentMs : UInt32) :
    (s.writeInLoopThread data currentMs).Settled ↔ s.kcp.Settles data.length := by
  obtain ⟨hclosed, hawaiting, htally⟩ :=
    writeInLoopThread_spec h hopen hpos currentMs
  have hawaiting := hawaiting hcomplete
  obtain ⟨hinv, hconfig⟩ :=
    (@writeInLoopThread_steps (fun _ => False) s data currentMs).inv h
  have hwnd : (s.writeInLoopThread data currentMs).kcp.sndWnd = s.kcp.sndWnd :=
    congrArg Config.sndWnd hconfig
  obtain ⟨tally, hwaiting, hsentWaiting⟩ := sentTally_waiting s.kcp data.length
  have hsentLe := (sentBytes_le s.kcp data.length).1
  have hdrop : (data.drop (s.kcp.sentBytes data.length)).length =
      data.length - s.kcp.sentBytes data.length := List.length_drop
  have hrestLe := ikcpIntLen_le (data.drop (s.kcp.sentBytes data.length))
  have hsentAdd := tally.add_waiting_le h.mss_pos (s.kcp.sentBytes data.length)
  have hrestAdd := (s.kcp.sentTally data.length).add_waiting_le h.mss_pos
    (ikcpIntLen (data.drop (s.kcp.sentBytes data.length))).toNat
  have hdrain := ikcpNeedDrain_iff hinv.send
  rw [htally, hwnd, Nat.mod_eq_of_lt (by omega)] at hdrain
  have hsettled : (s.writeInLoopThread data currentMs).Settled ↔
      s.kcp.sentBytes data.length = data.length ∨
        ikcpNeedDrain (s.writeInLoopThread data currentMs).kcp = true := by
    rw [Settled, hclosed, hawaiting, decide_eq_true_iff]
    constructor
    · intro hs
      by_cases hall : s.kcp.sentBytes data.length = data.length
      · exact Or.inl hall
      · exact Or.inr (hs rfl hall)
    · rintro (hall | hneed) _ hpart
      · exact absurd hall hpart
      · exact hneed
  rw [hsettled, hdrain, IKCPCB.Settles]
  by_cases hbefore : ikcpNeedDrain s.kcp = true
  · have hold := (ikcpNeedDrain_iff h.send).mp hbefore
    rw [Nat.mod_eq_of_lt (by omega)] at hold
    exact ⟨fun _ => Or.inl hbefore, fun _ => Or.inr (by omega)⟩
  · have hidle : ikcpNeedDrain s.kcp = false := by simpa using hbefore
    have hle := sentTally_waiting_le h hidle (by omega) data.length
    simp only [hidle, Bool.false_eq_true, false_or, Tally.lt_add_waiting_iff h.mss_pos hle]
    by_cases hshort : data.length - s.kcp.sentBytes data.length < 2 ^ 31
    · rw [ikcpIntLen_eq (by omega), hdrop, Int.toNat_natCast, and_iff_right hshort]
    · have hneg := @ikcpIntLen_neg (data.drop (s.kcp.sentBytes data.length)) (by omega) (by omega)
      rw [Int.toNat_of_nonpos hneg.le]
      simp only [hshort, false_and, Nat.not_lt_zero]

end KCPSession

/-- A call of the user that leaves an open session settled. A `Write` has bytes, and the segments
that wait with it can be counted in 32 bits. -/
def UserCall.Settles (s : KCPSession) : UserCall → Prop
  | .write data _ =>
    0 < data.length ∧ (s.closed = false →
      s.kcp.tally.waiting + data.length < 2 ^ 32 ∧ s.kcp.Settles data.length)
  | .close _ _ => True

/-- So do all calls that the callbacks make in the receive loop. -/
def KCPSession.DrainSettles : Nat → List (List UserCall) → KCPSession → Prop
  | 0, _, _ => True
  | fuel + 1, calls, s =>
    s.closed = false → ¬ ikcpPeeksize s.kcp < 0 →
      (s.callbacks.message = true →
        Along KCPSession.call (fun s userCall => userCall.Settles s)
          (s.receive (ikcpPeeksize s.kcp)) (calls.headD [])) ∧
        DrainSettles fuel calls.tail (s.onReadEvent (ikcpPeeksize s.kcp) (calls.headD []))

/-- A packet that `ikcp_input` refuses has not acknowledged so much before that an outstanding
completion is no longer due. -/
def KCPSession.RefusalSettles (s : KCPSession) (packet : KCPReceivedPacket) : Prop :=
  s.awaiting = true →
    s.kcp.sndWnd.toNat <
      ((s.kcp.unacked packet.remainingData).length + s.kcp.sndQueue.length) % 2 ^ 32

/-- A task that leaves an open session settled. For a packet that is not refused it is enough that
a drain was due before. -/
def SessionTask.Settles (s : KCPSession) : SessionTask → Prop
  | .call userCall => userCall.Settles s
  | .update _ => True
  | .packet received peerAddress calls =>
    s.closed = false →
      let input := ikcpInput s.kcp received.remainingData
      if input.1 < 0 then s.RefusalSettles received
      else ikcpNeedDrain s.kcp = true ∨
        KCPSession.DrainSettles (input.2.rcvQueue.length + input.2.rcvBuf.length) calls
          { s.setKcp input.2 with peerAddress := peerAddress }

/-- No step sets a callback. -/
theorem SessionStep.callbacks {arrives : List UInt8 → Prop} {s s' : KCPSession} {p p' : List UInt8}
    (hstep : SessionStep arrives (s, p) (s', p')) : s'.callbacks = s.callbacks := by
  cases hstep with
  | receive _ size _ => exact (s.receive_spec size).2.1
  | _ => rfl

/-- The callbacks stay as they were set. -/
theorem SessionSteps.callbacks {arrives : List UInt8 → Prop} {c c' : KCPSession × List UInt8}
    (hsteps : SessionSteps arrives c c') : c'.1.callbacks = c.1.callbacks := by
  refine hsteps.preserves (P := fun s _ => s.callbacks = c.1.callbacks) ?_ rfl
  intro s p s' p' hstep hs
  exact hstep.callbacks.trans hs

/-- A session whose control block is consistent and whose completions are watched. -/
structure KCPSession.Watched (s : KCPSession) : Prop where
  inv : s.kcp.Inv
  complete : s.callbacks.writeComplete = true
  settled : s.Settled

namespace KCPSession.Watched

/-- Of any steps only what they leave of the completion is left to show. -/
theorem of_steps {s s' : KCPSession} (h : s.Watched) {p p' : List UInt8}
    (hsteps : SessionSteps (fun _ => True) (s, p) (s', p')) (hsettled : s'.Settled) :
    s'.Watched := by
  refine ⟨(hsteps.inv h.inv).1, ?_, hsettled⟩
  rw [hsteps.callbacks]
  exact h.complete

end KCPSession.Watched

namespace KCPSession

/-- Of a closed session nothing is asked. -/
theorem settled_of_closed {s : KCPSession} (h : s.closed = true) : s.Settled := by
  intro hopen
  rw [h] at hopen
  cases hopen

/-- Closing closes. -/
theorem close_closed (s : KCPSession) (lastFlush : Bool) (currentMs : UInt32) :
    (s.close lastFlush currentMs).closed = true := by
  unfold close
  split
  · assumption
  · dsimp only
    rw [onConnectionEvent, log_closed]
    cases lastFlush with
    | true => exact flushTxQueue_closed _
    | false => rfl

/-- Reading a message settles no write. -/
theorem receive_awaiting (s : KCPSession) (size : Int) :
    (s.receive size).awaiting = s.awaiting := by
  unfold receive
  generalize ikcpRecv s.kcp (Int32.ofInt size) = result
  have hasserted : ∃ s' : KCPSession, (if result.asserted then s.setKcp result.kcp
      else (s.setKcp result.kcp).log .assertFailed) = s' ∧ s'.awaiting = s.awaiting := by
    refine ⟨_, rfl, ?_⟩
    split
    · rfl
    · exact log_awaiting _ _
  obtain ⟨s', hs', hawaiting⟩ := hasserted
  simp only [hs']
  rw [← hawaiting]
  exact log_awaiting_same _ s' rfl

end KCPSession

namespace KCPSession.Watched

/-- A call of the user keeps the completions watched. -/
theorem call {s : KCPSession} (h : s.Watched) {userCall : UserCall}
    (hsettles : userCall.Settles s) : (s.call userCall).Watched := by
  apply h.of_steps (call_steps s userCall)
  cases userCall with
  | close lastFlush currentMs => exact settled_of_closed (close_closed s lastFlush currentMs)
  | write data currentMs =>
      obtain ⟨hpos, hlength⟩ := hsettles
      cases hclosed : s.closed with
      | true =>
          apply settled_of_closed
          rw [KCPSession.call, writeInLoopThread]
          have hlog : (s.log (.written data)).closed = true := hclosed
          dsimp only
          rw [if_pos hlog]
          exact hlog
      | false =>
          obtain ⟨hcount, hlen⟩ := hlength hclosed
          exact (writeInLoopThread_settled_iff h.inv h.complete hclosed hpos hcount currentMs).mpr
            hlen

/-- So do the calls of a callback. -/
theorem calls {s : KCPSession} (h : s.Watched) {calls : List UserCall}
    (hsettles : Along KCPSession.call (fun s userCall => userCall.Settles s) s calls) :
    (calls.foldl KCPSession.call s).Watched :=
  hsettles.invariant (fun _ _ hcall hs => hs.call hcall) h

/-- So does taking a message from the queue. -/
theorem receive {s : KCPSession} (h : s.Watched) (size : Int) (hsize : ¬ Int32.ofInt size < 0) :
    (s.receive size).Watched := by
  obtain ⟨hkcp, _, hclosed, _⟩ := s.receive_spec size
  apply h.of_steps (.single (.receive s size hsize))
  intro hopen hawaiting
  rw [hkcp, ikcpNeedDrain_of_sendSide (ikcpRecv_sendSide s.kcp _)]
  rw [receive_awaiting] at hawaiting
  exact h.settled (hclosed ▸ hopen) hawaiting

/-- So does handing it to the callback. -/
theorem onReadEvent {s : KCPSession} (h : s.Watched) {size : Int}
    (hsize : ¬ Int32.ofInt size < 0) {calls : List UserCall}
    (hsettles : s.callbacks.message = true →
      Along KCPSession.call (fun s userCall => userCall.Settles s) (s.receive size) calls) :
    (s.onReadEvent size calls).Watched := by
  have hreceive := h.receive size hsize
  apply h.of_steps (onReadEvent_steps s size hsize calls)
  unfold KCPSession.onReadEvent
  have hcalls : ∃ s' : KCPSession, (if (ikcpRecv s.kcp (Int32.ofInt size)).rc > 0 ∧
        (s.receive size).callbacks.message then calls.foldl KCPSession.call (s.receive size)
      else s.receive size) = s' ∧ s'.Settled := by
    refine ⟨_, rfl, ?_⟩
    split
    · rename_i hmessage
      rw [(s.receive_spec size).2.1] at hmessage
      exact (hreceive.calls (hsettles hmessage.2)).settled
    · exact hreceive.settled
  obtain ⟨s', hs', hsettled⟩ := hcalls
  simp only [hs']
  split
  · exact hsettled
  · intro hopen hawaiting
    rw [log_awaiting] at hawaiting
    exact hsettled hopen hawaiting

/-- So does the receive loop. -/
theorem drain (fuel : Nat) {calls : List (List UserCall)} {s : KCPSession} (h : s.Watched)
    (hsettles : DrainSettles fuel calls s) : (KCPSession.drain fuel calls s).Watched := by
  induction fuel generalizing calls s with
  | zero => exact h
  | succ fuel ih =>
      unfold KCPSession.drain
      split
      · exact h
      rename_i hclosed
      split
      · exact h
      rename_i hpeek
      obtain ⟨hcalls, hrest⟩ := hsettles (by simpa using hclosed) hpeek
      exact ih (h.onReadEvent (ikcpPeeksize_nonneg hpeek) hcalls) hrest

/-- So does `UpdateConnectionState`. -/
theorem updateConnectionState {s : KCPSession} (h : s.Watched) (currentMs : UInt32) :
    (s.updateConnectionState currentMs).Watched := by
  apply h.of_steps (updateConnectionState_steps s currentMs)
  unfold KCPSession.updateConnectionState
  split
  · exact h.settled
  split
  · exact settled_of_closed (close_closed s false currentMs)
  · intro hopen hawaiting
    rw [log_awaiting] at hawaiting
    change (s.flush currentMs).flushTxQueue.awaiting = true at hawaiting
    rw [flushTxQueue_awaiting, flush_awaiting] at hawaiting
    have hkcp : ((s.flush currentMs).flushTxQueue.log
        (.stateTimer (ikcpFlush s.kcp currentMs).waitTime)).kcp =
        (ikcpFlush s.kcp currentMs).kcp := flushTxQueue_kcp _
    have hclosed : ((s.flush currentMs).flushTxQueue).closed = s.closed := flushTxQueue_closed _
    rw [hkcp, ikcpNeedDrain_ikcpFlush h.inv.send]
    exact h.settled (hclosed.symm.trans hopen) hawaiting

end KCPSession.Watched

namespace KCPSession

/-- A refused packet leaves what its segments before the refusal acknowledged. -/
theorem refused_settled_iff {s : KCPSession} (h : s.kcp.Inv) (hopen : s.closed = false)
    {packet : KCPReceivedPacket} (hrefused : (ikcpInput s.kcp packet.remainingData).1 < 0)
    (peerAddress : InetAddress) (calls : List (List UserCall)) :
    (s.processPacketInLoopThread packet peerAddress calls).Settled ↔ s.RefusalSettles packet := by
  have hinv : (ikcpInput s.kcp packet.remainingData).2.Inv :=
    ControlCall.run_inv h (.input packet.remainingData)
  have hwnd : (ikcpInput s.kcp packet.remainingData).2.sndWnd = s.kcp.sndWnd :=
    congrArg Config.sndWnd (ikcpInput_config s.kcp packet.remainingData)
  have hrun : s.processPacketInLoopThread packet peerAddress calls =
      s.setKcp (ikcpInput s.kcp packet.remainingData).2 := by
    rw [processPacketInLoopThread, if_neg (by rw [hopen]; exact Bool.false_ne_true)]
    simp only [hrefused, ite_true]
  have hdrain := ikcpNeedDrain_iff hinv.send
  rw [hwnd, ikcpInput_waiting h.send] at hdrain
  rw [hrun, RefusalSettles, ← hdrain]
  exact ⟨fun hs => hs hopen, fun hs _ => hs⟩

/-- Where a drain was due before a packet that is not refused, the end of the packet queues the
completion or leaves the drain due. -/
theorem accepted_settled {s : KCPSession} (before : Bool)
    (hs : before = true ∨ s.Settled) (hcomplete : s.callbacks.writeComplete = true) :
    (if !s.closed ∧ before ∧ !ikcpNeedDrain s.kcp ∧ s.callbacks.writeComplete then
      s.log .writeComplete else s).Settled := by
  split
  · intro _ hawaiting
    rw [log_awaiting] at hawaiting
    cases hawaiting
  · rename_i hnot
    rcases hs with hbefore | hsettled
    · intro hopen _
      by_contra hneed
      apply hnot
      simpa [hopen, hbefore, hcomplete] using hneed
    · exact hsettled

end KCPSession

/-- So does a packet. -/
theorem KCPSession.Watched.packet {s : KCPSession} (h : s.Watched) {received : KCPReceivedPacket}
    {peerAddress : InetAddress} {calls : List (List UserCall)}
    (hsettles : (SessionTask.packet received peerAddress calls).Settles s) :
    (s.processPacketInLoopThread received peerAddress calls).Watched := by
  have hsteps : SessionSteps (fun _ => True) (s, [])
      (s.processPacketInLoopThread received peerAddress calls, []) :=
    processPacketInLoopThread_steps s received peerAddress calls trivial
  apply h.of_steps hsteps
  simp only [SessionTask.Settles] at hsettles
  cases hclosed : s.closed with
  | true =>
      rw [processPacketInLoopThread, if_pos hclosed]
      exact h.settled
  | false =>
      have hcond := hsettles hclosed
      by_cases hrefused : (ikcpInput s.kcp received.remainingData).1 < 0
      · rw [if_pos hrefused] at hcond
        exact (refused_settled_iff h.inv hclosed hrefused peerAddress calls).mpr hcond
      rw [if_neg hrefused] at hcond
      rw [processPacketInLoopThread, if_neg (by rw [hclosed]; exact Bool.false_ne_true)]
      simp only [hrefused, ite_false]
      -- the loop starts with what `ikcp_input` left
      have hinput : SessionSteps (fun _ => True) (s, [])
          ({ s.setKcp (ikcpInput s.kcp received.remainingData).2 with
            peerAddress := peerAddress }, []) :=
        .head (.input s received.remainingData trivial) (.single (.address _ peerAddress))
      generalize ikcpInput s.kcp received.remainingData = input at hcond hinput
      have hdrain := hinput.trans (drain_steps (input.2.rcvQueue.length + input.2.rcvBuf.length)
        calls { s.setKcp input.2 with peerAddress := peerAddress })
      apply accepted_settled
      · cases hneed : ikcpNeedDrain s.kcp with
        | true => exact Or.inl rfl
        | false =>
            -- nothing is outstanding when the loop starts
            have hstart := h.of_steps hinput fun _ hawaiting => by
              have hdue := h.settled hclosed hawaiting
              rw [hneed] at hdue
              cases hdue
            rw [hneed] at hcond
            exact Or.inr (hstart.drain _ (hcond.resolve_left Bool.false_ne_true)).settled
      · exact (congrArg SessionCallbacks.writeComplete (SessionSteps.callbacks hdrain)).trans
          h.complete

/-- Every task that meets the condition keeps the completions watched. -/
theorem KCPSession.Watched.run {s : KCPSession} (h : s.Watched) {task : SessionTask}
    (hsettles : task.Settles s) : (task.run s).Watched := by
  cases task with
  | call userCall => exact h.call hsettles
  | update currentMs => exact h.updateConnectionState currentMs
  | packet received peerAddress calls => exact h.packet hsettles

/-- A session starts watched, before its connection callback makes any call. -/
theorem KCPSession.Watched.start {sessionId : UInt32} {peerAddress : InetAddress} {params : Params}
    {callbacks : SessionCallbacks} (hcomplete : callbacks.writeComplete = true) {s : KCPSession}
    (h : initializeWith sessionId peerAddress params callbacks [] = some s) : s.Watched := by
  obtain ⟨kcp, hkcp, hsteps⟩ := initializeWith_steps h
  have hfresh : ({ kcp, sessionId, peerAddress, callbacks } : KCPSession).Watched :=
    ⟨initializeControl_inv hkcp, hcomplete, fun _ hawaiting => by cases hawaiting⟩
  apply hfresh.of_steps (hsteps fun _ => True)
  intro _ hawaiting
  obtain ⟨kcp', _, rfl⟩ := Option.map_eq_some_iff.mp h
  have hsame : ∀ s : KCPSession, (s.onConnectionEvent true).awaiting = s.awaiting :=
    fun s => log_awaiting_same _ s rfl
  simp only [List.foldl_nil, ite_self] at hawaiting
  rw [hsame] at hawaiting
  cases hawaiting

/-- The calls of the connection callback are made on the session that starts. -/
theorem KCPSession.initializeWith_calls {sessionId : UInt32} {peerAddress : InetAddress}
    {params : Params} {callbacks : SessionCallbacks} {calls : List UserCall} {s₀ s : KCPSession}
    (h₀ : initializeWith sessionId peerAddress params callbacks [] = some s₀)
    (h : initializeWith sessionId peerAddress params callbacks calls = some s) :
    s = if callbacks.connection then calls.foldl call s₀ else s₀ := by
  obtain ⟨kcp, hkcp, hstart⟩ := Option.map_eq_some_iff.mp h₀
  obtain ⟨kcp', hkcp', rfl⟩ := Option.map_eq_some_iff.mp h
  obtain rfl : kcp = kcp' := Option.some.inj (hkcp.symm.trans hkcp')
  simp only [List.foldl_nil, ite_self] at hstart
  rw [← hstart]

/-- Where the calls and tasks of a run meet the condition, the session stays watched. -/
theorem KCPSession.Watched.runs {s : KCPSession} (h : s.Watched) {tasks : List SessionTask}
    (htasks : Along SessionTask.run (fun s task => task.Settles s) s tasks) :
    (tasks.foldl SessionTask.run s).Watched ∧
      Along SessionTask.run (fun s task => (task.run s).Settled) s tasks := by
  induction tasks generalizing s with
  | nil => exact ⟨h, trivial⟩
  | cons task tasks ih =>
      obtain ⟨htask, hrest⟩ := htasks
      have hrun := h.run htask
      obtain ⟨hend, hsettled⟩ := ih hrun hrest
      exact ⟨hend, hrun.settled, hsettled⟩

/-- In every run whose calls and tasks meet the condition, an outstanding completion is due after
every task. In the states that such runs reach, the condition on a `Write` and on a refused packet
is exact. -/
theorem completions_settled (sessionId : UInt32) (peerAddress : InetAddress) (params : Params)
    (callbacks : SessionCallbacks) (calls : List UserCall) (tasks : List SessionTask)
    (s₀ s : KCPSession) (hcomplete : callbacks.writeComplete = true)
    (hstart : KCPSession.initializeWith sessionId peerAddress params callbacks [] = some s₀)
    (hcalled : KCPSession.initializeWith sessionId peerAddress params callbacks calls = some s)
    (hcalls : callbacks.connection = true →
      Along KCPSession.call (fun s userCall => userCall.Settles s) s₀ calls)
    (htasks : Along SessionTask.run (fun s task => task.Settles s) s tasks) :
    s.Settled ∧ Along SessionTask.run (fun s task => (task.run s).Settled) s tasks ∧
      ((tasks.foldl SessionTask.run s).closed = false →
        (∀ (data : List UInt8) (currentMs : UInt32), 0 < data.length →
          (tasks.foldl SessionTask.run s).kcp.tally.waiting + data.length < 2 ^ 32 →
          (((tasks.foldl SessionTask.run s).writeInLoopThread data currentMs).Settled ↔
            (tasks.foldl SessionTask.run s).kcp.Settles data.length)) ∧
        ∀ (packet : KCPReceivedPacket) (address : InetAddress) (calls : List (List UserCall)),
          (ikcpInput (tasks.foldl SessionTask.run s).kcp packet.remainingData).1 < 0 →
          (((tasks.foldl SessionTask.run s).processPacketInLoopThread packet address
            calls).Settled ↔ (tasks.foldl SessionTask.run s).RefusalSettles packet)) := by
  have hs₀ := KCPSession.Watched.start hcomplete hstart
  have hs : s.Watched := by
    rw [KCPSession.initializeWith_calls hstart hcalled]
    split
    · rename_i hconnection
      exact hs₀.calls (hcalls hconnection)
    · exact hs₀
  obtain ⟨hend, hsettled⟩ := hs.runs htasks
  refine ⟨hs.settled, hsettled, fun hopen => ⟨?_, ?_⟩⟩
  · intro data currentMs hpos hcount
    exact KCPSession.writeInLoopThread_settled_iff hend.inv hend.complete hopen hpos hcount
      currentMs
  · intro packet address calls hrefused
    exact KCPSession.refused_settled_iff hend.inv hopen hrefused address calls

/-- Three bytes to an idle session, and a turn of its timer. -/
def greetingTasks : List SessionTask := [.call (.write [1, 2, 3] 0), .update 50]

/-- A run that greets the peer, with every completion settled. -/
theorem completions_settled_greetingTasks :
    ∃ s, KCPSession.initializeWith 7 ⟨"10.0.0.1:9000"⟩ sessionParams {} [] = some s ∧
      Along SessionTask.run (fun s task => (task.run s).Settled) s greetingTasks := by
  have hrun : (KCPSession.initializeWith 7 ⟨"10.0.0.1:9000"⟩ sessionParams {} []).map
      (fun s => decide (s.kcp.tally.waiting + 3 < 2 ^ 32 ∧ s.kcp.sentBytes 3 = 3)) =
        some true := by
    decide +kernel
  obtain ⟨s, hstart, hsent⟩ := Option.map_eq_some_iff.mp hrun
  obtain ⟨hcount, hall⟩ := of_decide_eq_true hsent
  refine ⟨s, hstart, ?_⟩
  refine (completions_settled 7 ⟨"10.0.0.1:9000"⟩ sessionParams {} [] greetingTasks s s rfl
    hstart hstart (fun _ => trivial) ?_).2.1
  exact ⟨⟨by decide, fun _ => ⟨hcount, Or.inr (Or.inl hall)⟩⟩, trivial, trivial⟩

/-- The peer announces that its receive window is full. -/
def shutWindow : KCPReceivedPacket :=
  { data := ikcpEncodeSeg { conv := 7, cmd := ikcpCmdWins } }

/-- Three bytes that are queued while the remote window is shut: no completion, and no drain. -/
theorem not_completions_settled_shutWindow :
    ∃ s, KCPSession.initializeWith 7 ⟨"10.0.0.1:9000"⟩ sessionParams {} [] = some s ∧
      ¬ Along SessionTask.run (fun s task => (task.run s).Settled) s
        [.packet shutWindow ⟨"10.0.0.1:9000"⟩ [], .call (.write [1, 2, 3] 0)] := by
  have hrun : (KCPSession.initializeWith 7 ⟨"10.0.0.1:9000"⟩ sessionParams {} []).map
      (fun s =>
        let s' := (SessionTask.packet shutWindow ⟨"10.0.0.1:9000"⟩ []).run s
        let s' := (SessionTask.call (.write [1, 2, 3] 0)).run s'
        (s'.closed, s'.awaiting, ikcpNeedDrain s'.kcp)) = some (false, true, false) := by
    decide +kernel
  obtain ⟨s, hstart, hstate⟩ := Option.map_eq_some_iff.mp hrun
  obtain ⟨hopen, hrest⟩ := Prod.mk.inj hstate
  obtain ⟨hawaiting, hdrain⟩ := Prod.mk.inj hrest
  refine ⟨s, hstart, fun h => ?_⟩
  have hdue := h.2.1 hopen hawaiting
  rw [hdrain] at hdue
  cases hdue

end CodeBlocks.Kcp
