import Mathlib.Tactic.IntervalCases
import Mathlib.Tactic.Ring
import CodeBlocks.Kcp.Invariant.Reachable
import CodeBlocks.Kcp.Session.Session

/-!
# When a session wakes up

`ikcp_flush` returns how long its caller may sleep. Timeouts grow by a half with
each loss, and a control block is dead before any of them reaches half a turn of
the clock, so that the wrapped differences of the data loop are true ones.
-/

namespace CodeBlocks.Kcp

open Serial

/-- The timeout of a segment has grown by a half at most with each transmission. -/
structure IKCPSEG.Timed (seg : IKCPSEG) : Prop where
  rto_ge : ikcpRtoNdl.toNat ≤ seg.rto.toNat
  rto_le : seg.rto.toNat * 2 ^ seg.xmit.toNat ≤ ikcpRtoMax.toNat * 3 ^ seg.xmit.toNat

namespace IKCPSEG.Timed

/-- No timeout comes near half a turn before the link is dead. -/
theorem rto_lt {seg : IKCPSEG} (h : seg.Timed) (hxmit : seg.xmit.toNat ≤ ikcpDeadlink.toNat) :
    seg.rto.toNat < 2 ^ 30 := by
  have hrto := h.rto_le
  have hdead : ikcpDeadlink.toNat = 20 := rfl
  have hmax : ikcpRtoMax.toNat = 60000 := rfl
  rw [hdead] at hxmit
  rw [hmax] at hrto
  generalize seg.xmit.toNat = n at hrto hxmit
  interval_cases n <;> omega

/-- The bounds of a segment speak of its timeout and its transmissions only. -/
theorem of_eq {seg seg' : IKCPSEG} (h : seg.Timed) (hrto : seg'.rto = seg.rto)
    (hxmit : seg'.xmit = seg.xmit) : seg'.Timed := by
  constructor
  · rw [hrto]
    exact h.rto_ge
  · rw [hrto, hxmit]
    exact h.rto_le

/-- A timeout that has not grown yet. -/
theorem of_le {seg : IKCPSEG} (hge : ikcpRtoNdl.toNat ≤ seg.rto.toNat)
    (hle : seg.rto.toNat ≤ ikcpRtoMax.toNat) : seg.Timed :=
  ⟨hge, Nat.mul_le_mul hle (Nat.pow_le_pow_left (by decide) _)⟩

/-- One more transmission, with a timeout that is longer by a half at most. -/
theorem next {seg seg' : IKCPSEG} (h : seg.Timed) (hxmit : seg'.xmit.toNat = seg.xmit.toNat + 1)
    (hge : seg.rto.toNat ≤ seg'.rto.toNat) (hle : 2 * seg'.rto.toNat ≤ 3 * seg.rto.toNat) :
    seg'.Timed := by
  refine ⟨h.rto_ge.trans hge, ?_⟩
  rw [hxmit, pow_succ, pow_succ]
  calc seg'.rto.toNat * (2 ^ seg.xmit.toNat * 2)
      = 2 * seg'.rto.toNat * 2 ^ seg.xmit.toNat := by ring
    _ ≤ 3 * seg.rto.toNat * 2 ^ seg.xmit.toNat := Nat.mul_le_mul_right _ hle
    _ = 3 * (seg.rto.toNat * 2 ^ seg.xmit.toNat) := by ring
    _ ≤ 3 * (ikcpRtoMax.toNat * 3 ^ seg.xmit.toNat) := Nat.mul_le_mul_left _ h.rto_le
    _ = ikcpRtoMax.toNat * (3 ^ seg.xmit.toNat * 3) := by ring

end IKCPSEG.Timed

/-- The interval and the timeout of new segments are bounded, and the timeouts of `snd_buf` are kept
in bounds by the number of transmissions while the link is alive. -/
structure IKCPCB.Timed (kcp : IKCPCB) : Prop where
  interval_ge : 10 ≤ kcp.interval.toNat
  interval_le : kcp.interval.toNat ≤ 5000
  minrto_ge : ikcpRtoNdl.toNat ≤ kcp.rxMinrto.toUInt32.toNat
  deadLink_eq : kcp.deadLink = ikcpDeadlink
  rto_ge : ikcpRtoNdl.toNat ≤ kcp.rxRto.toUInt32.toNat
  rto_le : kcp.rxRto.toUInt32.toNat ≤ ikcpRtoMax.toNat
  segs : kcp.nodelay = 1 → kcp.state = 0 →
    ∀ seg ∈ kcp.sndBuf, seg.Timed ∧ seg.xmit.toNat < ikcpDeadlink.toNat

/-- The clock and the transmissions of every segment come from an earlier `snd_buf`. -/
def TimersFrom (buf buf' : List IKCPSEG) : Prop :=
  ∀ seg' ∈ buf', ∃ seg ∈ buf, seg'.rto = seg.rto ∧ seg'.xmit = seg.xmit

theorem TimersFrom.of_subset {buf buf' : List IKCPSEG} (h : buf' ⊆ buf) : TimersFrom buf buf' :=
  fun seg hseg => ⟨seg, h hseg, rfl, rfl⟩

namespace IKCPCB.Timed

/-- Only the timeouts themselves can change. -/
theorem of_config {kcp kcp' : IKCPCB} (h : kcp.Timed) (hconfig : kcp'.config = kcp.config)
    (hge : ikcpRtoNdl.toNat ≤ kcp'.rxRto.toUInt32.toNat)
    (hle : kcp'.rxRto.toUInt32.toNat ≤ ikcpRtoMax.toNat)
    (hsegs : kcp.nodelay = 1 → kcp'.state = 0 →
      ∀ seg ∈ kcp'.sndBuf, seg.Timed ∧ seg.xmit.toNat < ikcpDeadlink.toNat) : kcp'.Timed := by
  have hinterval : kcp'.interval = kcp.interval := congrArg Config.interval hconfig
  have hminrto : kcp'.rxMinrto = kcp.rxMinrto := congrArg Config.rxMinrto hconfig
  have hnodelay : kcp'.nodelay = kcp.nodelay := congrArg Config.nodelay hconfig
  refine ⟨?_, ?_, ?_, (congrArg Config.deadLink hconfig).trans h.deadLink_eq, hge, hle, ?_⟩
  · rw [hinterval]
    exact h.interval_ge
  · rw [hinterval]
    exact h.interval_le
  · rw [hminrto]
    exact h.minrto_ge
  · rw [hnodelay]
    exact hsegs

/-- No timeout changes. -/
theorem of_from {kcp kcp' : IKCPCB} (h : kcp.Timed) (hconfig : kcp'.config = kcp.config)
    (hstate : kcp'.state = kcp.state) (hrto : kcp'.rxRto = kcp.rxRto)
    (hbuf : TimersFrom kcp.sndBuf kcp'.sndBuf) : kcp'.Timed := by
  apply h.of_config hconfig
  · rw [hrto]
    exact h.rto_ge
  · rw [hrto]
    exact h.rto_le
  · intro hnodelay halive seg' hseg'
    obtain ⟨seg, hseg, hrto', hxmit⟩ := hbuf seg' hseg'
    obtain ⟨htimed, hlt⟩ := h.segs hnodelay (hstate.symm.trans halive) seg hseg
    exact ⟨htimed.of_eq hrto' hxmit, by rwa [hxmit]⟩

end IKCPCB.Timed

/-! The bounds that `_ibound_` keeps. -/

/-- `_imin_` is the minimum. -/
theorem imin_toNat (a b : UInt32) : (imin a b).toNat = min a.toNat b.toNat := by
  unfold imin
  split
  · rename_i hle
    exact (min_eq_left (UInt32.le_iff_toNat_le.mp hle)).symm
  · rename_i hlt
    have hlt' := mt UInt32.le_iff_toNat_le.mpr hlt
    exact (min_eq_right (by omega)).symm

/-- `_imax_` is the maximum. -/
theorem imax_toNat (a b : UInt32) : (imax a b).toNat = max a.toNat b.toNat := by
  unfold imax
  split
  · rename_i hle
    exact (max_eq_left (UInt32.le_iff_toNat_le.mp hle)).symm
  · rename_i hlt
    have hlt' := mt UInt32.le_iff_toNat_le.mpr hlt
    exact (max_eq_right (by omega)).symm

/-- `_ibound_` clamps, the upper bound last. -/
theorem ibound_toNat (lower middle upper : UInt32) :
    (ibound lower middle upper).toNat = min (max lower.toNat middle.toNat) upper.toNat := by
  rw [ibound, imin_toNat, imax_toNat]

/-- A round trip changes the estimates only, and clamps the new timeout. -/
theorem ikcpUpdateAck_form (kcp : IKCPCB) (rtt : Int32) :
    ∃ srtt rttval rto, ikcpUpdateAck kcp rtt =
      { kcp with
        rxSrtt := srtt, rxRttval := rttval,
        rxRto := (ibound kcp.rxMinrto.toUInt32 rto ikcpRtoMax).toInt32 } :=
  ⟨_, _, _, rfl⟩

namespace IKCPCB.Timed

/-- A measured round trip keeps the timeouts bounded. -/
theorem updateAck {kcp : IKCPCB} (h : kcp.Timed) (rtt : Int32) : (ikcpUpdateAck kcp rtt).Timed := by
  have hminrto := h.minrto_ge
  have hbound : ∀ rto, ikcpRtoNdl.toNat ≤ (ibound kcp.rxMinrto.toUInt32 rto ikcpRtoMax).toNat ∧
      (ibound kcp.rxMinrto.toUInt32 rto ikcpRtoMax).toNat ≤ ikcpRtoMax.toNat := by
    intro rto
    rw [ibound_toNat]
    have hle : ikcpRtoNdl.toNat ≤ ikcpRtoMax.toNat := by decide
    exact ⟨le_min (hminrto.trans (le_max_left _ _)) hle, min_le_right _ _⟩
  obtain ⟨srtt, rttval, rto, heq⟩ := ikcpUpdateAck_form kcp rtt
  rw [heq]
  exact h.of_config rfl (hbound rto).1 (hbound rto).2 h.segs

/-- What leaves the settings, the timeout and `snd_buf` alone. -/
theorem of_eq {kcp kcp' : IKCPCB} (h : kcp.Timed) (hconfig : kcp'.config = kcp.config)
    (hstate : kcp'.state = kcp.state) (hrto : kcp'.rxRto = kcp.rxRto)
    (hbuf : kcp'.sndBuf = kcp.sndBuf) : kcp'.Timed :=
  h.of_from hconfig hstate hrto (TimersFrom.of_subset (hbuf ▸ List.Subset.refl _))

/-- So does moving `snd_una`. -/
theorem shrinkBuf {kcp : IKCPCB} (h : kcp.Timed) : (ikcpShrinkBuf kcp).Timed := by
  unfold ikcpShrinkBuf
  split
  · exact h.of_eq rfl rfl rfl rfl
  · exact h.of_eq rfl rfl rfl rfl

/-- So does dropping an acknowledged segment. -/
theorem parseAck {kcp : IKCPCB} (h : kcp.Timed) (sn : UInt32) : (ikcpParseAck kcp sn).Timed := by
  have hloop : ∀ (buf : List IKCPSEG) (n : UInt32), (ikcpParseAckLoop sn buf n).1 ⊆ buf := by
    intro buf n
    induction buf with
    | nil => exact List.Subset.refl _
    | cons seg buf ih =>
        unfold ikcpParseAckLoop
        split
        · exact List.subset_cons_self seg buf
        split
        · exact List.Subset.refl _
        · exact List.cons_subset_cons seg ih
  unfold ikcpParseAck
  split
  · exact h
  · exact h.of_from rfl rfl rfl (TimersFrom.of_subset (hloop _ _))

/-- So does dropping all the segments below `una`. -/
theorem parseUna {kcp : IKCPCB} (h : kcp.Timed) (una : UInt32) :
    (ikcpParseUna kcp una).Timed := by
  have hloop : ∀ (buf : List IKCPSEG) (n : UInt32), (ikcpParseUnaLoop una buf n).1 ⊆ buf := by
    intro buf
    induction buf with
    | nil => exact fun _ => List.Subset.refl _
    | cons seg buf ih =>
        intro n
        unfold ikcpParseUnaLoop
        split
        · exact List.subset_cons_of_subset seg (ih _)
        · exact List.Subset.refl _
  exact h.of_from rfl rfl rfl (TimersFrom.of_subset (hloop _ _))

/-- So does counting the segments that were skipped. -/
theorem parseFastack {kcp : IKCPCB} (h : kcp.Timed) (sn : UInt32) :
    (ikcpParseFastack kcp sn).Timed := by
  have hloop : ∀ buf, TimersFrom buf (ikcpFastackLoop sn buf) := by
    intro buf
    induction buf with
    | nil => exact TimersFrom.of_subset (List.Subset.refl _)
    | cons seg buf ih =>
        have hrest : ∀ seg' ∈ ikcpFastackLoop sn buf,
            ∃ old ∈ seg :: buf, seg'.rto = old.rto ∧ seg'.xmit = old.xmit := by
          intro seg' hseg'
          obtain ⟨old, hold, heq⟩ := ih seg' hseg'
          exact ⟨old, List.mem_cons_of_mem _ hold, heq⟩
        unfold ikcpFastackLoop
        split
        · exact TimersFrom.of_subset (List.Subset.refl _)
        split
        · exact List.forall_mem_cons.mpr ⟨⟨seg, List.mem_cons_self, rfl, rfl⟩, hrest⟩
        · exact List.forall_mem_cons.mpr ⟨⟨seg, List.mem_cons_self, rfl, rfl⟩, hrest⟩
  unfold ikcpParseFastack
  split
  · exact h
  · exact h.of_from rfl rfl rfl (hloop _)

/-- So does the move into the receive queue. -/
theorem move {kcp : IKCPCB} (h : kcp.Timed) : (ikcpMove kcp).Timed := by
  have hloop : ∀ (buf : List IKCPSEG) (k : IKCPCB), k.Timed → (ikcpMoveLoop buf k).Timed := by
    intro buf
    induction buf with
    | nil => exact fun k hk => hk.of_eq rfl rfl rfl rfl
    | cons seg buf ih =>
        intro k hk
        unfold ikcpMoveLoop
        split
        · exact ih _ (hk.of_eq rfl rfl rfl rfl)
        · exact hk.of_eq rfl rfl rfl rfl
  exact hloop _ _ h

/-- So does storing a PUSH segment. -/
theorem inputPush {kcp : IKCPCB} (h : kcp.Timed) (seg : IKCPSEG) :
    (ikcpInputPush kcp seg).Timed := by
  have hparse : ∀ k : IKCPCB, k.Timed → (ikcpParseData k seg).Timed := by
    intro k hk
    unfold ikcpParseData
    split
    · exact hk
    split
    · exact hk.move
    · rename_i buf _
      exact move (hk.of_eq rfl rfl rfl rfl)
  unfold ikcpInputPush
  split
  · have hpush : (ikcpAckPush kcp seg.sn seg.ts).Timed := h.of_eq rfl rfl rfl rfl
    simp only
    split
    · exact hparse _ hpush
    · exact hpush
  · exact h

/-- So does one segment of a datagram. -/
theorem inputSeg {st : InputState} (h : st.kcp.Timed) (seg : IKCPSEG) :
    (ikcpInputSeg st seg).kcp.Timed := by
  have hwnd : ({ st.kcp with rmtWnd := seg.wnd } : IKCPCB).Timed := h.of_eq rfl rfl rfl rfl
  have hcommon : (ikcpInputCommon st.kcp seg).Timed := (hwnd.parseUna seg.una).shrinkBuf
  unfold ikcpInputSeg
  split
  · have hack : ∀ s : InputState, s.kcp.Timed → (ikcpInputAck s seg).kcp.Timed := by
      intro s hs
      have hrtt : (if itimediff s.kcp.current seg.ts ≥ 0 then
          ikcpUpdateAck s.kcp (s.kcp.current - seg.ts).toInt32 else s.kcp).Timed := by
        split
        · exact hs.updateAck _
        · exact hs
      unfold ikcpInputAck
      cases s.maxack with
      | none => exact (hrtt.parseAck seg.sn).shrinkBuf
      | some maxack => exact (hrtt.parseAck seg.sn).shrinkBuf
    exact hack _ hcommon
  split
  · exact hcommon.inputPush seg
  split
  · exact hcommon.of_eq rfl rfl rfl rfl
  · exact hcommon

/-- So does the window update at the end of a datagram. -/
theorem inputEnd {st : InputState} (h : st.kcp.Timed) (prevUna : UInt32) :
    (ikcpInputEnd st prevUna).Timed := by
  have hcwnd : ∀ k : IKCPCB, k.Timed → (ikcpUpdateCwnd k prevUna).Timed := by
    intro k hk
    simp only [ikcpUpdateCwnd]
    repeat' split
    all_goals first | exact hk | exact hk.of_eq rfl rfl rfl rfl
  unfold ikcpInputEnd
  apply hcwnd
  cases st.maxack with
  | none => exact h
  | some maxack => exact h.parseFastack maxack

/-- So does a whole datagram. -/
theorem input {kcp : IKCPCB} (h : kcp.Timed) (data : List UInt8) :
    (ikcpInput kcp data).2.Timed := by
  apply ikcpInput_induct (P := IKCPCB.Timed) data h
  · intro st seg _ hst
    exact hst.inputSeg seg
  · intro st hst
    exact hst.inputEnd kcp.sndUna

/-- So does a write. -/
theorem write {kcp : IKCPCB} (h : kcp.Timed) (data : List UInt8) (alwaysStream : Bool) :
    (ikcpWrite kcp data alwaysStream).2.Timed := by
  apply h.of_eq (ikcpWrite_config kcp data alwaysStream)
  all_goals
    simp only [ikcpWrite]
    repeat' split
    all_goals rfl

/-- So does reading a message. -/
theorem recv {kcp : IKCPCB} (h : kcp.Timed) (len : Int32) : (ikcpRecv kcp len).kcp.Timed := by
  have hdeliver : (ikcpDeliver kcp).Timed := h.of_eq rfl rfl rfl rfl
  have hrecover : ∀ (k : IKCPCB) (recover : Bool), k.Timed → (ikcpRecover k recover).Timed := by
    intro k recover hk
    unfold ikcpRecover
    split
    · exact hk.of_eq rfl rfl rfl rfl
    · exact hk
  simp only [ikcpRecv]
  repeat' split
  all_goals first | exact h | exact hrecover _ _ h.move | exact hrecover _ _ hdeliver.move

/-- Segments come into `snd_buf` with the timeout of the block and no transmission. -/
theorem fillLoop (cwnd wnd current : UInt32) (queue : List IKCPSEG) {kcp : IKCPCB}
    (h : kcp.Timed) : (ikcpFillLoop cwnd wnd current queue kcp).Timed := by
  induction queue generalizing kcp with
  | nil => exact h.of_eq rfl rfl rfl rfl
  | cons seg queue ih =>
      unfold ikcpFillLoop
      split
      · apply ih
        refine h.of_config rfl h.rto_ge h.rto_le ?_
        intro hnodelay halive
        refine List.forall_mem_append.mpr ⟨h.segs hnodelay halive, ?_⟩
        rw [List.forall_mem_singleton]
        exact ⟨IKCPSEG.Timed.of_le h.rto_ge h.rto_le, (by decide : 0 < ikcpDeadlink.toNat)⟩
      · exact h.of_eq rfl rfl rfl rfl

/-- What a flush does before its data loop. -/
theorem flushHead {kcp : IKCPCB} (h : kcp.Timed) (current : UInt32) :
    (ikcpFlushHead kcp current).1.Timed := by
  rw [ikcpFlushHead_kcp]
  apply fillLoop
  apply h.of_eq (ikcpProbed_sides kcp current).2.2
  all_goals
    simp only [ikcpProbed, ikcpProbeTimer]
    repeat' split
    all_goals rfl

end IKCPCB.Timed

/-! One turn of the data loop, and the whole loop. -/

/-- Half of a timeout, as the signed division of the source computes it. -/
theorem half_toNat {rto : UInt32} (h : rto.toNat < 2 ^ 31) :
    (rto.toInt32 / 2).toUInt32.toNat = rto.toNat / 2 := by
  have hdiv : (rto.toInt32 / 2).toInt = (rto.toNat / 2 : Nat) := by
    rw [Int32.toInt_div_of_ne_right _ _ (by decide), Serial.toInt_toInt32_of_lt h]
    rfl
  have hnonneg : 0 ≤ rto.toInt32 / 2 := by
    rw [Int32.le_iff_toInt_le, hdiv]
    exact Int.natCast_nonneg _
  rw [Int32.toNat_toUInt32_of_le hnonneg, ← Int32.toNat_toInt, hdiv, Int.toNat_natCast]

/-- The segment is resent at the earliest after some time, and not so late that it would be due
now. -/
structure Sleeps (current : UInt32) (wait : Nat) (seg : IKCPSEG) : Prop where
  ge : wait ≤ dist current seg.resendts
  le : dist current seg.resendts ≤ 2 ^ 31

/-- A segment that sleeps for a time is not due before it is over. -/
theorem Sleeps.not_due {current d : UInt32} {wait : Nat} {seg : IKCPSEG}
    (h : Sleeps current wait seg) (hd : d.toNat < wait) :
    itimediff (current + d) seg.resendts < 0 :=
  diff_add_neg h.le (hd.trans_le h.ge)

/-- It sleeps for any shorter time as well. -/
theorem Sleeps.mono {current : UInt32} {wait wait' : Nat} {seg : IKCPSEG}
    (h : Sleeps current wait seg) (hle : wait' ≤ wait) : Sleeps current wait' seg :=
  ⟨hle.trans h.ge, h.le⟩

/-- The timer of a segment after the tests of the data loop. -/
structure Rearmed (current : UInt32) (segment segment' : IKCPSEG) : Prop where
  timed : segment'.Timed
  xmit_le : segment'.xmit.toNat ≤ segment.xmit.toNat + 1
  sleeps : Sleeps current 1 segment'

/-- A segment that is sent is due again after its timeout. -/
theorem Rearmed.sent {current : UInt32} {segment segment' : IKCPSEG} (h : segment'.Timed)
    (hdead : segment.xmit.toNat < ikcpDeadlink.toNat)
    (hxmit : segment'.xmit.toNat = segment.xmit.toNat + 1)
    (hresend : segment'.resendts = current + segment'.rto) : Rearmed current segment segment' := by
  have hrto := h.rto_lt (by omega)
  have hge := h.rto_ge
  have hndl : ikcpRtoNdl.toNat = 30 := rfl
  refine ⟨h, hxmit.le, ?_, ?_⟩
  · rw [hresend, dist_add]
    omega
  · rw [hresend, dist_add]
    omega

/-- The waiting time of the data loop after a segment that sleeps. -/
theorem waitTime_toNat {current : UInt32} {seg : IKCPSEG} (hseg : Sleeps current 1 seg)
    {wait : UInt32} (hle : wait.toNat ≤ 2 ^ 31) :
    (if itimediff seg.resendts current > 0 ∧ itimediff seg.resendts current < wait.toNat then
      UInt32.ofNat (itimediff seg.resendts current).toNat else wait).toNat =
        min (dist current seg.resendts) wait.toNat := by
  obtain ⟨hge, hhalf⟩ := hseg
  rw [itimediff, diff_eq]
  by_cases hlt : dist current seg.resendts < 2 ^ 31
  · rw [if_pos hlt, Int.toNat_natCast]
    split
    · rw [UInt32.toNat_ofNat', Nat.mod_eq_of_lt (by omega)]
      omega
    · omega
  · rw [if_neg hlt, if_neg (by omega)]
    omega

/-- The data loop writes the timer of a segment, takes its distance into account, and declares the
link dead after too many transmissions. -/
theorem ikcpFlushSegment_timer (kcp : IKCPCB) (current resent rtomin wnd : UInt32)
    (segment : IKCPSEG) (st : FlushState) :
    let reason := ikcpSendReason kcp current resent segment
    let rearmed := ikcpRearm kcp current rtomin segment reason
    let result := ikcpFlushSegment kcp current resent rtomin wnd segment st
    result.1.rto = rearmed.rto ∧ result.1.xmit = rearmed.xmit ∧
      result.1.resendts = rearmed.resendts ∧
      (result.2.waitTime = if itimediff rearmed.resendts current > 0 ∧
          itimediff rearmed.resendts current < st.waitTime.toNat then
        UInt32.ofNat (itimediff rearmed.resendts current).toNat else st.waitTime) ∧
      result.2.state = if reason ≠ .none ∧ rearmed.xmit ≥ kcp.deadLink then 0xffffffff
        else st.state := by
  by_cases hreason : ikcpSendReason kcp current resent segment = .none
  · simp [ikcpFlushSegment, hreason, ikcpRearm]
  · simp [ikcpFlushSegment, hreason, ikcpStamp]

/-- A dead link stays dead. -/
theorem ikcpFlushLoop_state {kcp : IKCPCB} {current resent rtomin wnd : UInt32}
    {buf : List IKCPSEG} {st : FlushState}
    (h : (ikcpFlushLoop kcp current resent rtomin wnd buf st).2.state = 0) : st.state = 0 := by
  induction buf generalizing st with
  | nil => exact h
  | cons segment buf ih =>
      have hstate := (ikcpFlushSegment_timer kcp current resent rtomin wnd segment st).2.2.2.2
      have hnext : (ikcpFlushSegment kcp current resent rtomin wnd segment st).2.state = 0 := ih h
      rw [hnext] at hstate
      split at hstate
      · exact absurd hstate (by decide)
      · exact hstate.symm

section Flush

variable {kcp : IKCPCB} (h : kcp.Timed) (hnodelay : kcp.nodelay = 1)
include h hnodelay

/-- After the tests of the data loop the timer is armed, whether the segment was sent or not. -/
theorem ikcpRearm_rearmed (current resent : UInt32) {segment : IKCPSEG} (hseg : segment.Timed)
    (hxmit : segment.xmit.toNat < ikcpDeadlink.toNat) :
    Rearmed current segment (ikcpRearm kcp current 0 segment
      (ikcpSendReason kcp current resent segment)) := by
  have hrto := hseg.rto_lt hxmit.le
  have hnext : (segment.xmit + 1).toNat = segment.xmit.toNat + 1 := by
    have hdead : ikcpDeadlink.toNat = 20 := rfl
    rw [UInt32.toNat_add, UInt32.toNat_one]
    omega
  unfold ikcpSendReason
  split
  · exact Rearmed.sent (IKCPSEG.Timed.of_le h.rto_ge h.rto_le) hxmit hnext (UInt32.add_zero _)
  split
  · have hgrown : (segment.rto + (segment.rto.toInt32 / 2).toUInt32).toNat =
        segment.rto.toNat + segment.rto.toNat / 2 := by
      rw [UInt32.toNat_add, half_toNat (by omega)]
      omega
    have hrearm : ikcpRearm kcp current 0 segment .timeout = { segment with
        xmit := segment.xmit + 1
        rto := segment.rto + (segment.rto.toInt32 / 2).toUInt32
        resendts := current + (segment.rto + (segment.rto.toInt32 / 2).toUInt32) } := by
      have hone : ¬ (1 : UInt32) = 0 := by decide
      have htwo : (1 : UInt32) < 2 := by decide
      simp only [ikcpRearm, hnodelay, if_neg hone, if_pos htwo]
    rw [hrearm]
    refine Rearmed.sent (hseg.next hnext ?_ ?_) hxmit hnext rfl
    · change segment.rto.toNat ≤ (segment.rto + (segment.rto.toInt32 / 2).toUInt32).toNat
      omega
    · change 2 * (segment.rto + (segment.rto.toInt32 / 2).toUInt32).toNat ≤ _
      omega
  rename_i hlater
  split
  · exact Rearmed.sent (hseg.next hnext le_rfl (Nat.mul_le_mul_right _ (by decide))) hxmit hnext rfl
  · obtain ⟨hpos, hle⟩ := diff_neg_iff.mp (not_le.mp hlater)
    exact ⟨hseg, Nat.le_succ _, hpos, hle⟩

/-- What the data loop makes of some segments. -/
structure Flushed (current : UInt32) (st st' : FlushState) (segs : List IKCPSEG) : Prop where
  timed : ∀ seg ∈ segs, seg.Timed
  sleeps : ∀ seg ∈ segs, Sleeps current st'.waitTime.toNat seg
  alive : st'.state = 0 → ∀ seg ∈ segs, seg.xmit.toNat < ikcpDeadlink.toNat
  wait_pos : 1 ≤ st'.waitTime.toNat
  wait_le : st'.waitTime.toNat ≤ st.waitTime.toNat

/-- One round of the data loop lowers the wait to what its segment allows. -/
theorem ikcpFlushSegment_flushed (current resent wnd : UInt32) {segment : IKCPSEG}
    (hseg : segment.Timed) (hxmit : segment.xmit.toNat < ikcpDeadlink.toNat) {st : FlushState}
    (hpos : 1 ≤ st.waitTime.toNat) (hle : st.waitTime.toNat ≤ 2 ^ 31) :
    Flushed current st (ikcpFlushSegment kcp current resent 0 wnd segment st).2
      [(ikcpFlushSegment kcp current resent 0 wnd segment st).1] := by
  have hrearmed := ikcpRearm_rearmed h hnodelay current resent hseg hxmit
  obtain ⟨hrto, hxmit', hresend, hwait, hstate⟩ :=
    ikcpFlushSegment_timer kcp current resent 0 wnd segment st
  have htoNat := congrArg UInt32.toNat hwait
  rw [waitTime_toNat hrearmed.sleeps hle] at htoNat
  have hone := hrearmed.sleeps.ge
  constructor
  · rw [List.forall_mem_singleton]
    exact hrearmed.timed.of_eq hrto hxmit'
  · rw [List.forall_mem_singleton]
    constructor
    · rw [hresend, htoNat]
      exact min_le_left _ _
    · rw [hresend]
      exact hrearmed.sleeps.le
  · intro halive
    rw [List.forall_mem_singleton, hxmit']
    by_contra hdead
    by_cases hreason : ikcpSendReason kcp current resent segment = .none
    · rw [hreason] at hdead
      exact hdead hxmit
    · have hmany : (ikcpRearm kcp current 0 segment
          (ikcpSendReason kcp current resent segment)).xmit ≥ kcp.deadLink := by
        rw [h.deadLink_eq, ge_iff_le, UInt32.le_iff_toNat_le]
        exact not_lt.mp hdead
      rw [if_pos ⟨hreason, hmany⟩, halive] at hstate
      exact absurd hstate (by decide)
  · rw [htoNat]
    exact le_min hone hpos
  · rw [htoNat]
    exact min_le_right _ _

/-- So does the loop for all of them. -/
theorem ikcpFlushLoop_flushed (current resent wnd : UInt32) (buf : List IKCPSEG)
    (hbuf : ∀ seg ∈ buf, seg.Timed ∧ seg.xmit.toNat < ikcpDeadlink.toNat) {st : FlushState}
    (hpos : 1 ≤ st.waitTime.toNat) (hle : st.waitTime.toNat ≤ 2 ^ 31) :
    Flushed current st (ikcpFlushLoop kcp current resent 0 wnd buf st).2
      (ikcpFlushLoop kcp current resent 0 wnd buf st).1 := by
  induction buf generalizing st with
  | nil =>
      exact ⟨List.forall_mem_nil _, List.forall_mem_nil _, fun _ => List.forall_mem_nil _, hpos,
        le_rfl⟩
  | cons segment buf ih =>
      obtain ⟨⟨hseg, hxmit⟩, hrest⟩ := List.forall_mem_cons.mp hbuf
      have hfirst := ikcpFlushSegment_flushed h hnodelay current resent wnd hseg hxmit hpos hle
      have hlater := ih hrest hfirst.wait_pos (hfirst.wait_le.trans hle)
      constructor
      · exact List.forall_mem_cons.mpr ⟨hfirst.timed _ List.mem_cons_self, hlater.timed⟩
      · refine List.forall_mem_cons.mpr ⟨?_, hlater.sleeps⟩
        exact (hfirst.sleeps _ List.mem_cons_self).mono hlater.wait_le
      · intro halive
        refine List.forall_mem_cons.mpr ⟨?_, hlater.alive halive⟩
        exact hfirst.alive (ikcpFlushLoop_state halive) _ List.mem_cons_self
      · exact hlater.wait_pos
      · exact hlater.wait_le.trans hfirst.wait_le

end Flush

/-- The variables of the data loop at its start. -/
def ikcpFlushStart (kcp : IKCPCB) (current : UInt32) : FlushState :=
  let (kcp, buf) := ikcpFlushHead kcp current
  { buf := buf, xmit := kcp.xmit, state := kcp.state, change := false, lost := false,
    waitTime := kcp.interval }

/-- The data loop of a flush. -/
def ikcpFlushData (kcp : IKCPCB) (current : UInt32) : List IKCPSEG × FlushState :=
  let head := (ikcpFlushHead kcp current).1
  ikcpFlushLoop head current (ikcpResent head) (ikcpRtomin head) (ikcpWndUnused kcp) head.sndBuf
    (ikcpFlushStart kcp current)

/-- A flush keeps what its data loop leaves. -/
theorem ikcpFlush_data (kcp : IKCPCB) (current : UInt32) :
    (ikcpFlush kcp current).kcp.sndBuf = (ikcpFlushData kcp current).1 ∧
      (ikcpFlush kcp current).kcp.state = (ikcpFlushData kcp current).2.state ∧
      (ikcpFlush kcp current).kcp.rxRto = (ikcpFlushHead kcp current).1.rxRto ∧
      (ikcpFlush kcp current).waitTime = (ikcpFlushData kcp current).2.waitTime := by
  have hcwnd : ∀ (k : IKCPCB) (change lost : Bool) (resent cwnd : UInt32),
      (ikcpFlushCwnd k change lost resent cwnd).sndBuf = k.sndBuf ∧
        (ikcpFlushCwnd k change lost resent cwnd).state = k.state ∧
        (ikcpFlushCwnd k change lost resent cwnd).rxRto = k.rxRto := by
    intro k change lost resent cwnd
    simp only [ikcpFlushCwnd]
    repeat' split
    all_goals exact ⟨rfl, rfl, rfl⟩
  obtain ⟨hbuf, hstate, hrto⟩ := hcwnd _ _ _ _ _
  exact ⟨hbuf, hstate, hrto, rfl⟩

/-- The part of a flush before the data loop leaves the settings and the state alone. -/
theorem ikcpFlushHead_kept (kcp : IKCPCB) (current : UInt32) :
    (ikcpFlushHead kcp current).1.config = kcp.config ∧
      (ikcpFlushHead kcp current).1.state = kcp.state := by
  have hfill : ∀ (cwnd wnd : UInt32) (queue : List IKCPSEG) (k : IKCPCB),
      (ikcpFillLoop cwnd wnd current queue k).state = k.state := by
    intro cwnd wnd queue
    induction queue with
    | nil => exact fun k => rfl
    | cons seg queue ih =>
        intro k
        unfold ikcpFillLoop
        split
        · exact ih _
        · rfl
  rw [ikcpFlushHead_kcp, ikcpFillLoop_config, hfill]
  refine ⟨(ikcpProbed_sides kcp current).2.2, ?_⟩
  simp only [ikcpProbed, ikcpProbeTimer]
  repeat' split
  all_goals rfl

/-- A flush of a link that is alive. -/
theorem ikcpFlush_flushed {kcp : IKCPCB} (h : kcp.Timed) (hnodelay : kcp.nodelay = 1)
    (halive : kcp.state = 0) (current : UInt32) :
    Flushed current (ikcpFlushStart kcp current) (ikcpFlushData kcp current).2
      (ikcpFlushData kcp current).1 := by
  have hhead := h.flushHead current
  obtain ⟨hconfig, hstate⟩ := ikcpFlushHead_kept kcp current
  have hdelay : (ikcpFlushHead kcp current).1.nodelay = 1 :=
    (congrArg Config.nodelay hconfig).trans hnodelay
  have hwait : (ikcpFlushStart kcp current).waitTime = kcp.interval :=
    congrArg Config.interval hconfig
  have hrtomin : ikcpRtomin (ikcpFlushHead kcp current).1 = 0 := by
    rw [ikcpRtomin, hdelay]
    rfl
  have hge := h.interval_ge
  have hle := h.interval_le
  simp only [ikcpFlushData, hrtomin]
  apply ikcpFlushLoop_flushed hhead hdelay
  · exact hhead.segs hdelay (hstate.trans halive)
  · rw [hwait]
    omega
  · rw [hwait]
    omega

/-- A flush keeps the timeouts bounded. -/
theorem IKCPCB.Timed.flush {kcp : IKCPCB} (h : kcp.Timed) (current : UInt32) :
    (ikcpFlush kcp current).kcp.Timed := by
  obtain ⟨hbuf, hstate, hrto, -⟩ := ikcpFlush_data kcp current
  have hhead := h.flushHead current
  apply h.of_config (ikcpFlush_config kcp current)
  · rw [hrto]
    exact hhead.rto_ge
  · rw [hrto]
    exact hhead.rto_le
  · intro hnodelay halive
    rw [hstate] at halive
    have hbefore : kcp.state = 0 :=
      (ikcpFlushHead_kept kcp current).2.symm.trans (ikcpFlushLoop_state halive)
    have hflushed := ikcpFlush_flushed h hnodelay hbefore current
    rw [hbuf]
    exact fun seg hseg => ⟨hflushed.timed seg hseg, hflushed.alive halive seg hseg⟩

/-- The interval that `ikcp_nodelay` takes over is cut to its bounds. -/
theorem clampInterval_bounds (interval : Int32) (h : interval ≥ 0) :
    let clamped : UInt32 :=
      if interval > 5000 then 5000 else if interval < 10 then 10 else interval.toUInt32
    10 ≤ clamped.toNat ∧ clamped.toNat ≤ 5000 := by
  simp only
  split
  · decide
  split
  · decide
  rename_i hle hge
  have hle' := mt Int32.lt_iff_toInt_lt.mpr hle
  have hge' := mt Int32.lt_iff_toInt_lt.mpr hge
  have hfive : (5000 : Int32).toInt = 5000 := rfl
  have hten : (10 : Int32).toInt = 10 := rfl
  rw [hfive] at hle'
  rw [hten] at hge'
  rw [Int32.toNat_toUInt32_of_le h, ← Int32.toNat_toInt]
  omega

/-- The settings of `ikcp_nodelay` that timers depend on. -/
theorem ikcpNodelay_timers (kcp : IKCPCB) (nodelay interval resend nc : Int32) :
    let result := ikcpNodelay kcp nodelay interval resend nc
    (result.interval = kcp.interval ∨ 10 ≤ result.interval.toNat ∧ result.interval.toNat ≤ 5000) ∧
      (result.rxMinrto = kcp.rxMinrto ∨ ikcpRtoNdl.toNat ≤ result.rxMinrto.toUInt32.toNat) ∧
      result.deadLink = kcp.deadLink ∧ result.rxRto = kcp.rxRto ∧ result.sndBuf = kcp.sndBuf := by
  have hminrto : ikcpRtoNdl.toNat ≤
      (if nodelay ≠ 0 then ikcpRtoNdl.toInt32 else ikcpRtoMin.toInt32).toUInt32.toNat := by
    split
    · decide
    · decide
  obtain ⟨_, _, _, heq⟩ := ikcpNodelay_form kcp nodelay interval resend nc
  simp only [heq, and_true]
  constructor
  · split
    · rename_i hinterval
      exact Or.inr (clampInterval_bounds interval hinterval)
    · exact Or.inl rfl
  · split
    · exact Or.inr hminrto
    · exact Or.inl rfl

/-- `KCPSession::Initialize` leaves no segment and bounded timeouts. -/
theorem initializeControl_timed {sessionId : UInt32} {params : Params} {kcp : IKCPCB}
    (h : initializeControl sessionId params = some kcp) : kcp.Timed := by
  obtain ⟨mtu, mss, headRoom, incr, hform⟩ := initializeControl_form h
  obtain ⟨hinterval, hminrto, hdead, hrto, hbuf⟩ := hform ▸ ikcpNodelay_timers
    { ikcpWndsize (ikcpStream (ikcpCreate sessionId) params.streamMode) params.sndWnd
        params.rcvWnd with
      mtu, mss, headRoom, incr, sndHghwat := params.sndWnd.toUInt32 }
    params.nodelay params.interval params.resend params.nocongestion
  refine ⟨?_, ?_, ?_, hdead, ?_, ?_, ?_⟩
  · rcases hinterval with heq | hbounds
    · rw [heq]
      exact (by decide : 10 ≤ ikcpInterval.toNat)
    · exact hbounds.1
  · rcases hinterval with heq | hbounds
    · rw [heq]
      exact (by decide : ikcpInterval.toNat ≤ 5000)
    · exact hbounds.2
  · rcases hminrto with heq | hge
    · rw [heq]
      exact (by decide : ikcpRtoNdl.toNat ≤ ikcpRtoMin.toInt32.toUInt32.toNat)
    · exact hge
  · rw [hrto]
    exact (by decide : ikcpRtoNdl.toNat ≤ ikcpRtoDef.toInt32.toUInt32.toNat)
  · rw [hrto]
    exact (by decide : ikcpRtoDef.toInt32.toUInt32.toNat ≤ ikcpRtoMax.toNat)
  · intro _ _
    rw [hbuf]
    exact List.forall_mem_nil _

/-- The timeouts of a reachable control block are bounded. -/
theorem IKCPCB.Reachable.timed {sessionId : UInt32} {params : Params} {kcp : IKCPCB}
    (h : kcp.Reachable sessionId params) : kcp.Timed := by
  apply h.invariant
  · exact fun _ => initializeControl_timed
  · intro kcp call hkcp
    cases call with
    | send data => exact hkcp.write data false
    | append data => exact hkcp.write data true
    | input data => exact hkcp.input data
    | recv len => exact hkcp.recv len
    | flush current => exact hkcp.flush current

/-- A flush of a link that is alive and does not delay lets its caller sleep for a while, and for no
longer than the interval; until then no segment of `snd_buf` is due, and `UpdateConnectionState`
runs again by then. -/
theorem ikcpFlush_waitTime {sessionId : UInt32} {params : Params} {kcp : IKCPCB}
    (hreach : kcp.Reachable sessionId params) (halive : kcp.state = 0)
    (hnodelay : kcp.nodelay = 1) (current : UInt32) :
    let result := ikcpFlush kcp current
    1 ≤ result.waitTime ∧ result.waitTime ≤ kcp.interval ∧
      (∀ seg ∈ result.kcp.sndBuf, ∀ d < result.waitTime,
        ¬ itimediff (current + d) seg.resendts ≥ 0) ∧
      ∀ s : KCPSession, s.kcp = kcp → s.closed = false →
        (s.updateConnectionState current).events.getLast? = some (.stateTimer result.waitTime) := by
  have htimed := hreach.timed
  have hflushed := ikcpFlush_flushed htimed hnodelay halive current
  obtain ⟨hbuf, -, -, hwait⟩ := ikcpFlush_data kcp current
  have hstart : (ikcpFlushStart kcp current).waitTime = kcp.interval :=
    congrArg Config.interval (ikcpFlushHead_kept kcp current).1
  simp only
  rw [hwait, hbuf]
  refine ⟨?_, ?_, ?_, ?_⟩
  · exact UInt32.le_iff_toNat_le.mpr hflushed.wait_pos
  · rw [UInt32.le_iff_toNat_le, ← hstart]
    exact hflushed.wait_le
  · intro seg hseg d hd
    exact not_le.mpr ((hflushed.sleeps seg hseg).not_due (UInt32.lt_iff_toNat_lt.mp hd))
  · rintro s rfl hopen
    have hlive : ikcpIsAlive s.kcp = true := by simp [ikcpIsAlive, halive]
    simp [KCPSession.updateConnectionState, hopen, hlive, KCPSession.log, hwait]

/-- A segment that was sent just before the clock wrapped is due ten milliseconds from now. -/
theorem ikcpFlush_waitTime_wrapped :
    ∃ kcp : IKCPCB, kcp.Reachable 7 kFastModeKCPParams ∧ (ikcpFlush kcp 94).waitTime = 10 ∧
      kcp.interval = 50 ∧ ∀ seg ∈ (ikcpFlush kcp 94).kcp.sndBuf, ∀ d < (10 : UInt32),
        ¬ itimediff (94 + d) seg.resendts ≥ 0 := by
  have hr : IKCPCB.Reachable 7 kFastModeKCPParams
      ([ControlCall.send [1, 2, 3], .flush 4294967200].foldl ControlCall.run
        ((initializeControl 7 kFastModeKCPParams).getD (ikcpCreate 0))) :=
    ⟨_, _, rfl, rfl⟩
  have hwait := ikcpFlush_waitTime hr (by decide +kernel) (by decide +kernel) 94
  refine ⟨_, hr, by decide +kernel, by decide +kernel, ?_⟩
  intro seg hseg d hd
  exact hwait.2.2.1 seg hseg d (lt_of_lt_of_eq hd (by decide +kernel))

end CodeBlocks.Kcp
