import CodeBlocks.Kcp.Invariant.Config

/-!
# Flushing numbers queued segments

A flush moves a front part of `snd_queue` to the end of `snd_buf`, as far as the
smallest of the windows allows, and gives the segments the next sequence
numbers. The data loop behind it rewrites timers and stamps only; the receiving
half loses its pending acknowledgements and nothing else.
-/

namespace CodeBlocks.Kcp

open Serial

/-- Queued segments with the numbers from `nxt` on. -/
def numbered (conv : UInt32) : UInt32 → List IKCPSEG → List IKCPSEG
  | _, [] => []
  | nxt, seg :: rest =>
    { conv := conv, cmd := ikcpCmdPush, frg := seg.frg, sn := nxt, data := seg.data } ::
      numbered conv (nxt + 1) rest

@[simp] theorem length_numbered (conv nxt : UInt32) (segs : List IKCPSEG) :
    (numbered conv nxt segs).length = segs.length := by
  induction segs generalizing nxt with
  | nil => rfl
  | cons seg segs ih => rw [numbered, List.length_cons, ih, List.length_cons]

/-- The sending half after `moved` left the queue for the buffer. -/
def SendSide.fill (s : SendSide) (moved rest : List IKCPSEG) : SendSide :=
  { s with
    queue := rest
    nque := s.nque - UInt32.ofNat moved.length
    buf := s.buf ++ numbered s.conv s.nxt moved
    nbuf := s.nbuf + UInt32.ofNat moved.length
    nxt := s.nxt + UInt32.ofNat moved.length }

/-- Moving no segment changes nothing. -/
theorem SendSide.fill_nil {s : SendSide} {queue : List IKCPSEG} (hq : s.queue = queue) :
    s.fill [] queue = s := by
  subst hq
  simp [SendSide.fill, numbered]

/-- Moving one segment and then some others. -/
theorem SendSide.fill_fill (s : SendSide) (seg : IKCPSEG) (mid moved rest : List IKCPSEG) :
    (s.fill [seg] mid).fill moved rest = s.fill (seg :: moved) rest := by
  have hadd (x : UInt32) := add_one_add_length x seg moved
  have hsub (x : UInt32) := sub_one_sub_length x seg moved
  simp only [SendSide.fill, numbered, List.length_singleton, List.append_assoc,
    List.singleton_append, UInt32.ofNat_one, hadd, hsub]

/-- One segment is numbered while the window is open. -/
theorem SendSide.Inv.push {s : SendSide} (h : s.Inv) {seg : IKCPSEG} {rest : List IKCPSEG}
    (hq : s.queue = seg :: rest) {cwnd : UInt32} (hle : cwnd.toNat ≤ s.wnd.toNat)
    (hlt : cwnd.toNat < 2 ^ 16) (hopen : itimediff s.nxt (s.una + cwnd) < 0) :
    (s.fill [seg] rest).Inv := by
  have hflight := h.flight_lt
  have hroom : dist s.una s.nxt < cwnd.toNat := by
    rw [itimediff, diff_eq_sub (b := s.una) (by omega) (by rw [dist_add]; omega), dist_add] at hopen
    omega
  have hnxt : dist s.una (s.nxt + 1) = dist s.una s.nxt + 1 := dist_succ (by omega)
  constructor
  · simp only [SendSide.fill, h.nque_eq, hq, List.length_cons, List.length_nil,
      UInt32.ofNat_add]
    grind
  · simp only [SendSide.fill, h.nbuf_eq, List.length_append, length_numbered, UInt32.ofNat_add]
  · change Within s.una (dist s.una (s.nxt + 1)) (List.map _ (s.buf ++ numbered s.conv s.nxt [seg]))
    rw [hnxt, List.map_append]
    exact h.within.snoc rfl
  · change s.una = ((s.buf ++ numbered s.conv s.nxt [seg]).head?.map IKCPSEG.sn).getD (s.nxt + 1)
    have huna := h.una_eq
    cases hb : s.buf with
    | nil => simpa [hb, numbered] using huna
    | cons first others => simpa [hb] using huna
  · change dist s.una (s.nxt + 1) ≤ s.wnd.toNat
    omega
  · change dist s.una (s.nxt + 1) < 2 ^ 16
    omega
  · exact h.rmt_lt
  · intro x hx
    exact h.queued x (hq ▸ List.mem_cons_of_mem _ hx)
  · intro x hx
    have hlast := h.last_frg x
    change rest.getLast? = some x at hx
    rw [hq] at hlast
    cases rest with
    | nil => simp at hx
    | cons y ys => exact hlast (by rwa [List.getLast?_cons_cons])
  · intro x hx
    rcases List.mem_append.mp hx with hx | hx
    · exact h.buffered x hx
    · have hseg := h.queued seg (hq ▸ List.mem_cons_self)
      rw [List.mem_singleton.mp hx]
      exact ⟨hseg.data_le, hseg.frg_lt⟩
  · intro x hx
    rcases List.mem_append.mp hx with hx | hx
    · exact h.pushed x hx
    · rw [List.mem_singleton.mp hx]
      exact ⟨rfl, rfl⟩

/-- The fill loop numbers a front part of the queue and changes nothing else. -/
theorem ikcpFillLoop_spec (cwnd wnd current : UInt32) (queue : List IKCPSEG) (kcp : IKCPCB)
    (h : SendSide.Inv { kcp.sendSide with queue := queue })
    (hle : cwnd.toNat ≤ kcp.sndWnd.toNat) (hlt : cwnd.toNat < 2 ^ 16) :
    ∃ moved rest, queue = moved ++ rest ∧
      (ikcpFillLoop cwnd wnd current queue kcp).sendSide =
        SendSide.fill { kcp.sendSide with queue := queue } moved rest ∧
      (SendSide.fill { kcp.sendSide with queue := queue } moved rest).Inv := by
  induction queue generalizing kcp with
  | nil =>
      refine ⟨[], [], rfl, ?_, ?_⟩
      · rw [SendSide.fill_nil rfl]
        rfl
      · rwa [SendSide.fill_nil rfl]
  | cons seg queue ih =>
      unfold ikcpFillLoop
      by_cases hopen : itimediff kcp.sndNxt (kcp.sndUna + cwnd) < 0
      · rw [if_pos hopen]
        generalize hk : ({ kcp with
          nsndQue := kcp.nsndQue - 1
          nsndBuf := kcp.nsndBuf + 1
          sndNxt := kcp.sndNxt + 1
          sndBuf := kcp.sndBuf ++ [{ seg with
            conv := kcp.conv, cmd := ikcpCmdPush, wnd := wnd, ts := current, sn := kcp.sndNxt,
            una := kcp.rcvNxt, resendts := current, rto := kcp.rxRto.toUInt32, fastack := 0,
            xmit := 0 }] } : IKCPCB) = k
        have hside : { k.sendSide with queue := queue } =
            SendSide.fill { kcp.sendSide with queue := seg :: queue } [seg] queue := by
          subst hk
          simp [IKCPCB.sendSide, SendSide.fill, numbered, IKCPSEG.core]
        have hwnd : k.sndWnd = kcp.sndWnd := by rw [← hk]
        obtain ⟨moved, rest, hq, heq, hinv⟩ := ih k
          (by rw [hside]; exact h.push rfl hle hlt hopen) (by rwa [hwnd])
        rw [hside, SendSide.fill_fill] at heq hinv
        exact ⟨seg :: moved, rest, by rw [hq, List.cons_append], heq, hinv⟩
      · rw [if_neg hopen]
        refine ⟨[], seg :: queue, rfl, ?_, ?_⟩
        · rw [SendSide.fill_nil rfl]
          rfl
        · rwa [SendSide.fill_nil rfl]

/-- The segments are moved in the sending half only. -/
theorem ikcpFillLoop_receiveSide (cwnd wnd current : UInt32) (queue : List IKCPSEG)
    (kcp : IKCPCB) :
    (ikcpFillLoop cwnd wnd current queue kcp).receiveSide = kcp.receiveSide := by
  induction queue generalizing kcp with
  | nil => rfl
  | cons seg queue ih =>
      unfold ikcpFillLoop
      split
      · exact ih _
      · rfl

theorem ikcpFillLoop_config (cwnd wnd current : UInt32) (queue : List IKCPSEG) (kcp : IKCPCB) :
    (ikcpFillLoop cwnd wnd current queue kcp).config = kcp.config := by
  induction queue generalizing kcp with
  | nil => rfl
  | cons seg queue ih =>
      unfold ikcpFillLoop
      split
      · exact ih _
      · rfl

/-- The segments of `snd_buf` that are due, as they are encoded. -/
def ikcpDueSegs (kcp : IKCPCB) (current resent rtomin wnd : UInt32) (buf : List IKCPSEG) :
    List IKCPSEG :=
  (buf.filter (ikcpNeedsend kcp current resent)).map fun segment =>
    ikcpStamp kcp current wnd
      (ikcpRearm kcp current rtomin segment (ikcpSendReason kcp current resent segment))

/-- Arming the timer of a segment leaves its core. -/
theorem ikcpRearm_core (kcp : IKCPCB) (current rtomin : UInt32) (segment : IKCPSEG)
    (reason : SendReason) : (ikcpRearm kcp current rtomin segment reason).core = segment.core := by
  cases reason <;> rfl

/-- One turn of the data loop keeps what identifies the segment, and packs it if it is due. -/
theorem ikcpFlushSegment_spec (kcp : IKCPCB) (current resent rtomin wnd : UInt32)
    (segment : IKCPSEG) (st : FlushState) :
    (ikcpFlushSegment kcp current resent rtomin wnd segment st).1.core = segment.core ∧
      (ikcpFlushSegment kcp current resent rtomin wnd segment st).2.buf =
        (ikcpDueSegs kcp current resent rtomin wnd [segment]).foldl (FlushBuf.put kcp) st.buf := by
  have hcore := ikcpRearm_core kcp current rtomin segment
    (ikcpSendReason kcp current resent segment)
  by_cases hr : ikcpSendReason kcp current resent segment = .none
  · have hdue : ikcpDueSegs kcp current resent rtomin wnd [segment] = [] := by
      simp [ikcpDueSegs, ikcpNeedsend, hr]
    simp only [hdue, ikcpFlushSegment, hr, ite_true, List.foldl_nil]
    exact ⟨rfl, trivial⟩
  · simp only [ikcpFlushSegment, ikcpDueSegs, ikcpNeedsend, hr, List.filter_cons, List.filter_nil,
      ne_eq, not_false_eq_true, decide_true, ite_true, ite_false, List.map_cons, List.map_nil,
      List.foldl_cons, List.foldl_nil]
    exact ⟨hcore, trivial⟩

/-- The data loop keeps `snd_buf` up to bookkeeping and packs what is due, in order. -/
theorem ikcpFlushLoop_spec (kcp : IKCPCB) (current resent rtomin wnd : UInt32)
    (buf : List IKCPSEG) (st : FlushState) :
    (ikcpFlushLoop kcp current resent rtomin wnd buf st).1.map IKCPSEG.core =
        buf.map IKCPSEG.core ∧
      (ikcpFlushLoop kcp current resent rtomin wnd buf st).2.buf =
        (ikcpDueSegs kcp current resent rtomin wnd buf).foldl (FlushBuf.put kcp) st.buf := by
  induction buf generalizing st with
  | nil => exact ⟨rfl, rfl⟩
  | cons segment buf ih =>
      obtain ⟨hcore, hbuf⟩ := ikcpFlushSegment_spec kcp current resent rtomin wnd segment st
      obtain ⟨ihcore, ihbuf⟩ := ih
        (ikcpFlushSegment kcp current resent rtomin wnd segment st).2
      have hsplit : ikcpDueSegs kcp current resent rtomin wnd (segment :: buf) =
          ikcpDueSegs kcp current resent rtomin wnd [segment] ++
            ikcpDueSegs kcp current resent rtomin wnd buf := by
        simp only [ikcpDueSegs]
        rw [← List.map_append, ← List.filter_append, List.singleton_append]
      unfold ikcpFlushLoop
      constructor
      · simp only [List.map_cons, hcore, ihcore]
      · rw [hsplit, List.foldl_append, ← hbuf]
        exact ihbuf

/-- A flush sends within both windows. -/
theorem ikcpFlushWnd_le (kcp : IKCPCB) :
    (ikcpFlushWnd kcp).toNat ≤ kcp.sndWnd.toNat ∧
      (ikcpFlushWnd kcp).toNat ≤ kcp.rmtWnd.toNat := by
  have hmin (a b : UInt32) : (imin a b).toNat ≤ a.toNat ∧ (imin a b).toNat ≤ b.toNat := by
    unfold imin
    split
    · rename_i hab
      exact ⟨le_rfl, UInt32.le_iff_toNat_le.mp hab⟩
    · rename_i hab
      have := mt UInt32.le_iff_toNat_le.mpr hab
      omega
  have hwnd := hmin kcp.sndWnd kcp.rmtWnd
  have hcwnd := hmin kcp.cwnd (imin kcp.sndWnd kcp.rmtWnd)
  simp only [ikcpFlushWnd]
  split <;> omega

theorem ikcpProbeTimer_sides (kcp : IKCPCB) :
    (ikcpProbeTimer kcp).sendSide = kcp.sendSide ∧
      (ikcpProbeTimer kcp).receiveSide = kcp.receiveSide ∧
      (ikcpProbeTimer kcp).config = kcp.config := by
  simp only [ikcpProbeTimer]
  repeat' split
  all_goals simp only [IKCPCB.sendSide, IKCPCB.receiveSide, IKCPCB.config, and_self]

theorem ikcpFlushCwnd_sides (kcp : IKCPCB) (change lost : Bool) (resent cwnd : UInt32) :
    (ikcpFlushCwnd kcp change lost resent cwnd).sendSide = kcp.sendSide ∧
      (ikcpFlushCwnd kcp change lost resent cwnd).receiveSide = kcp.receiveSide ∧
      (ikcpFlushCwnd kcp change lost resent cwnd).config = kcp.config := by
  simp only [ikcpFlushCwnd]
  repeat' split
  all_goals exact ⟨rfl, rfl, rfl⟩

/-- The control block just before the fill loop of a flush. -/
def ikcpProbed (kcp : IKCPCB) (current : UInt32) : IKCPCB :=
  { ikcpProbeTimer { kcp with current := current, acklist := [] } with probe := 0 }

theorem ikcpProbed_sides (kcp : IKCPCB) (current : UInt32) :
    (ikcpProbed kcp current).sendSide = kcp.sendSide ∧
      (ikcpProbed kcp current).receiveSide = { kcp.receiveSide with acks := [] } ∧
      (ikcpProbed kcp current).config = kcp.config := by
  obtain ⟨hs, hr, hc⟩ := ikcpProbeTimer_sides { kcp with current := current, acklist := [] }
  exact ⟨hs, hr, hc⟩

theorem ikcpFlushHead_kcp (kcp : IKCPCB) (current : UInt32) :
    (ikcpFlushHead kcp current).1 =
      ikcpFillLoop (ikcpFlushWnd (ikcpProbed kcp current)) (ikcpWndUnused kcp) current
        (ikcpProbed kcp current).sndQueue (ikcpProbed kcp current) := rfl

/-- A flush keeps the settings. -/
theorem ikcpFlush_config (kcp : IKCPCB) (current : UInt32) :
    (ikcpFlush kcp current).kcp.config = kcp.config := by
  rw [ikcpFlush, (ikcpFlushCwnd_sides _ _ _ _ _).2.2]
  change (ikcpFlushHead kcp current).1.config = kcp.config
  rw [ikcpFlushHead_kcp, ikcpFillLoop_config, (ikcpProbed_sides kcp current).2.2]

/-- A flush empties the list of acknowledgements and leaves the rest of the receiving half. -/
theorem ikcpFlush_receiveSide (kcp : IKCPCB) (current : UInt32) :
    (ikcpFlush kcp current).kcp.receiveSide = { kcp.receiveSide with acks := [] } := by
  rw [ikcpFlush, (ikcpFlushCwnd_sides _ _ _ _ _).2.1]
  change (ikcpFlushHead kcp current).1.receiveSide = _
  rw [ikcpFlushHead_kcp, ikcpFillLoop_receiveSide, (ikcpProbed_sides kcp current).2.1]

/-- After the segments are moved a flush leaves the sending half. -/
theorem ikcpFlush_sendSide (kcp : IKCPCB) (current : UInt32) :
    (ikcpFlush kcp current).kcp.sendSide = (ikcpFlushHead kcp current).1.sendSide := by
  rw [ikcpFlush, (ikcpFlushCwnd_sides _ _ _ _ _).1]
  simp only [IKCPCB.sendSide, (ikcpFlushLoop_spec _ _ _ _ _ _ _).1]

/-- A flush numbers a front part of the queue. -/
theorem ikcpFlush_fill {kcp : IKCPCB} (h : kcp.sendSide.Inv) (current : UInt32) :
    ∃ moved rest, kcp.sndQueue = moved ++ rest ∧
      (ikcpFlush kcp current).kcp.sendSide = kcp.sendSide.fill moved rest ∧
      (kcp.sendSide.fill moved rest).Inv := by
  have hside := (ikcpProbed_sides kcp current).1
  have hqueue : (ikcpProbed kcp current).sndQueue = kcp.sndQueue := congrArg SendSide.queue hside
  have hrmt : (ikcpProbed kcp current).rmtWnd.toNat < 2 ^ 16 := by
    have := h.rmt_lt
    rwa [← hside] at this
  obtain ⟨hwnd, hrwnd⟩ := ikcpFlushWnd_le (ikcpProbed kcp current)
  have hfill := ikcpFillLoop_spec (ikcpFlushWnd (ikcpProbed kcp current)) (ikcpWndUnused kcp)
    current (ikcpProbed kcp current).sndQueue (ikcpProbed kcp current)
    (by rw [hside, hqueue]; exact h) hwnd (by omega)
  rw [← ikcpFlushHead_kcp, ← ikcpFlush_sendSide, hside, hqueue] at hfill
  exact hfill

end CodeBlocks.Kcp
