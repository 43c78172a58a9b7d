import CodeBlocks.Kcp.Invariant.Write
import CodeBlocks.Kcp.Invariant.Flush
import CodeBlocks.Kcp.Invariant.Input

/-!
# Counting what waits to be sent

The window queries read the sending half through a few numbers only: how many
segments are in flight, how many are queued, and how many bytes still fit into
the last queued one. The three calls that change the sending half are exact
functions of these numbers, so what a query answers after a call can be computed
from the state before it.
-/

namespace CodeBlocks.Kcp

open Serial

/-- Segments in flight, segments in the queue, and the free bytes of the last queued one. -/
structure Tally where
  buffered : Nat
  queued : Nat
  room : Nat
  deriving DecidableEq, Repr

namespace Tally

/-- All segments that wait for an acknowledgement. -/
def waiting (t : Tally) : Nat := t.buffered + t.queued

/-- No segment is filled up behind this one. -/
def sealed (t : Tally) : Tally := { t with room := 0 }

/-- Bytes packed into the free room and then into segments of their own. -/
def add (t : Tally) (mss n : Nat) : Tally :=
  if n ≤ t.room then { t with room := t.room - n }
  else
    let count := ikcpFragmentCount mss (n - t.room)
    { t with queued := t.queued + count, room := count * mss - (n - t.room) }

/-- So many queued segments may be put in flight. -/
def flush (t : Tally) (free : Nat) : Tally :=
  if t.queued ≤ free then ⟨t.buffered + t.queued, 0, 0⟩
  else ⟨t.buffered + free, t.queued - free, t.room⟩

@[simp] theorem add_zero (t : Tally) (mss : Nat) : t.add mss 0 = t := by
  rw [add, if_pos (Nat.zero_le _), Nat.sub_zero]

@[simp] theorem flush_waiting (t : Tally) (free : Nat) : (t.flush free).waiting = t.waiting := by
  unfold flush waiting
  split
  · exact Nat.add_zero _
  · simp only
    omega

end Tally

/-- The number of fragments is the length divided by the segment size, rounded up. -/
theorem lt_ikcpFragmentCount_iff {mss len : Nat} (hm : 0 < mss) (hlen : 0 < len) (k : Nat) :
    k < ikcpFragmentCount mss len ↔ k * mss < len := by
  unfold ikcpFragmentCount
  split
  · rename_i hle
    constructor
    · intro hk
      rw [Nat.lt_one_iff.mp hk, Nat.zero_mul]
      exact hlen
    · intro hk
      by_contra hpos
      have hmul := Nat.mul_le_mul_right mss (not_lt.mp hpos)
      omega
  · rw [Nat.lt_iff_add_one_le, Nat.le_div_iff_mul_le hm, Nat.succ_mul]
    omega

namespace Tally

/-- At most one segment a byte is added. -/
theorem add_waiting_le (t : Tally) {mss : Nat} (hm : 0 < mss) (n : Nat) :
    t.waiting ≤ (t.add mss n).waiting ∧ (t.add mss n).waiting ≤ t.waiting + n := by
  unfold add waiting
  split
  · exact ⟨le_rfl, Nat.le_add_right _ _⟩
  · rename_i hlt
    have hcount : ikcpFragmentCount mss (n - t.room) ≤ n - t.room := by
      by_contra hgt
      have hmul := (lt_ikcpFragmentCount_iff hm (by omega) _).mp (not_le.mp hgt)
      have hself := Nat.le_mul_of_pos_right (n - t.room) hm
      omega
    simp only
    omega

/-- More than so many segments wait after bytes are added, exactly when the bytes fill the free room
and all segments up to that number. -/
theorem lt_add_waiting_iff {t : Tally} {mss bound : Nat} (hm : 0 < mss) (hle : t.waiting ≤ bound)
    (n : Nat) :
    bound < (t.add mss n).waiting ↔ t.room + (bound - t.waiting) * mss < n := by
  unfold add
  split
  · have hwaiting : ¬ bound < ({ t with room := t.room - n } : Tally).waiting := not_lt.mpr hle
    simp only [hwaiting, false_iff]
    omega
  · rename_i hlt
    have hcount := @lt_ikcpFragmentCount_iff mss (n - t.room) hm (by omega) (bound - t.waiting)
    unfold waiting at hcount hle ⊢
    simp only
    omega

end Tally

/-- The free bytes of the last segment of a queue. -/
def tailRoom (mss : Nat) (queue : List IKCPSEG) : Nat :=
  (queue.getLast?.map fun old => mss - old.data.length).getD 0

def SendSide.tally (s : SendSide) : Tally :=
  ⟨s.buf.length, s.queue.length, tailRoom s.mss.toNat s.queue⟩

def IKCPCB.tally (kcp : IKCPCB) : Tally := kcp.sendSide.tally

/-- Only the last segment has room. -/
theorem tailRoom_append (mss : Nat) (queue : List IKCPSEG) {added : List IKCPSEG}
    (h : added ≠ []) : tailRoom mss (queue ++ added) = tailRoom mss added := by
  rw [tailRoom, List.getLast?_append_of_ne_nil _ h, tailRoom]

/-- `ikcp_waitsnd` counts the segments in 32 bits. -/
theorem toNat_ikcpWaitsnd {kcp : IKCPCB} (h : kcp.sendSide.Inv) :
    (ikcpWaitsnd kcp).toNat = kcp.tally.waiting % 2 ^ 32 := by
  have hbuf : kcp.nsndBuf = UInt32.ofNat kcp.sendSide.buf.length := h.nbuf_eq
  have hqueue : kcp.nsndQue = UInt32.ofNat kcp.sendSide.queue.length := h.nque_eq
  rw [ikcpWaitsnd, hbuf, hqueue, ← UInt32.ofNat_add, UInt32.toNat_ofNat']
  rfl

/-- A drain is due when more segments wait than the send window holds. -/
theorem ikcpNeedDrain_iff {kcp : IKCPCB} (h : kcp.sendSide.Inv) :
    ikcpNeedDrain kcp = true ↔ kcp.sndWnd.toNat < kcp.tally.waiting % 2 ^ 32 := by
  rw [ikcpNeedDrain, decide_eq_true_iff, ← toNat_ikcpWaitsnd h]
  exact UInt32.lt_iff_toNat_lt

/-- `ikcp_need_drain` reads the sending half alone. -/
theorem ikcpNeedDrain_of_sendSide {kcp kcp' : IKCPCB} (h : kcp'.sendSide = kcp.sendSide) :
    ikcpNeedDrain kcp' = ikcpNeedDrain kcp :=
  congrArg (fun side : SendSide => decide (side.nbuf + side.nque > side.wnd)) h

section Write

/-- All fragments but the last are full. -/
theorem tailRoom_ikcpFragment (mss : Nat) (streamMode : Bool) (count : Nat) (buffer : List UInt8)
    (hlt : count * mss < buffer.length) (hle : buffer.length ≤ (count + 1) * mss) :
    tailRoom mss (ikcpFragment mss streamMode (count + 1) buffer) =
      (count + 1) * mss - buffer.length := by
  induction count generalizing buffer with
  | zero =>
      rw [Nat.zero_add, Nat.one_mul] at hle ⊢
      have hsize : ¬ buffer.length > mss := not_lt.mpr hle
      simp [ikcpFragment, tailRoom, hsize]
  | succ count ih =>
      rw [Nat.succ_mul] at hlt hle
      have hsize : buffer.length > mss := by omega
      have hdrop : (buffer.drop mss).length = buffer.length - mss := List.length_drop
      have hrest := ih (buffer.drop mss) (by rw [hdrop]; omega) (by rw [hdrop]; omega)
      rw [ikcpFragment]
      simp only [hsize, ite_true]
      rw [← List.singleton_append, tailRoom_append _ _ (ikcpFragment_ne_nil _ _ _ (by omega)),
        hrest, hdrop, Nat.succ_mul (count + 1)]
      omega

/-- Fragments behind a queue: their number is added, and the last of them has the room. -/
theorem tally_fragments {kcp : IKCPCB} (hm : 0 < kcp.mss.toNat) (queue : List IKCPSEG)
    (streamMode : Bool) {buffer : List UInt8} (hpos : 0 < buffer.length) (nsndQue : UInt32) :
    (kcp.setSndQueue (queue ++ ikcpFragment kcp.mss.toNat streamMode
        (ikcpFragmentCount kcp.mss.toNat buffer.length) buffer) nsndQue).tally =
      ⟨kcp.tally.buffered, queue.length + ikcpFragmentCount kcp.mss.toNat buffer.length,
        ikcpFragmentCount kcp.mss.toNat buffer.length * kcp.mss.toNat - buffer.length⟩ := by
  obtain ⟨count, hcount⟩ := Nat.exists_eq_succ_of_ne_zero
    (ikcpFragmentCount_pos hm buffer.length).ne'
  have hlt := (lt_ikcpFragmentCount_iff hm hpos count).mp (by omega)
  have hle := @le_ikcpFragmentCount_mul kcp.mss.toNat buffer.length hm
  rw [hcount] at hle ⊢
  have hroom := tailRoom_ikcpFragment kcp.mss.toNat streamMode count buffer hlt hle
  have htail := tailRoom_append kcp.mss.toNat queue
    (ikcpFragment_ne_nil kcp.mss.toNat streamMode buffer (Nat.succ_pos count))
  have hlength : (queue ++ ikcpFragment kcp.mss.toNat streamMode (count + 1) buffer).length =
      queue.length + (count + 1) := by
    rw [List.length_append, length_ikcpFragment]
  simp only [IKCPCB.tally, SendSide.tally, IKCPCB.sendSide, IKCPCB.setSndQueue, hlength,
    Nat.succ_eq_add_one, htail.trans hroom]

/-- Filling up the last segment takes as many bytes as it has room for. -/
theorem ikcpExtendTail_room (mss : Nat) (queue : List IKCPSEG) (buffer : List UInt8) :
    (ikcpExtendTail mss queue buffer).1.length = queue.length ∧
      tailRoom mss (ikcpExtendTail mss queue buffer).1 = tailRoom mss queue - buffer.length ∧
      (ikcpExtendTail mss queue buffer).2.length = buffer.length - tailRoom mss queue := by
  rcases List.eq_nil_or_concat queue with rfl | ⟨init, old, rfl⟩
  · exact ⟨rfl, (Nat.zero_sub _).symm, rfl⟩
  have hroom : tailRoom mss (init.concat old) = mss - old.data.length := by
    simp [tailRoom]
  rw [hroom, List.concat_eq_append, ikcpExtendTail, List.getLast?_concat]
  by_cases hlt : old.data.length < mss
  · simp only [hlt, ite_true, List.dropLast_concat]
    refine ⟨by simp, ?_, ?_⟩
    · rw [tailRoom, List.getLast?_concat]
      simp only [Option.map_some, Option.getD_some, List.length_append, List.length_take]
      split <;> omega
    · rw [List.length_drop]
      split <;> omega
  · simp only [hlt, ite_false]
    have hzero : mss - old.data.length = 0 := by omega
    rw [← List.concat_eq_append, hroom, hzero]
    exact ⟨trivial, (Nat.zero_sub _).symm, rfl⟩

/-- Bytes that fit into the last segment. -/
theorem Tally.add_of_le {t : Tally} {n : Nat} (h : n ≤ t.room) (mss : Nat) :
    t.add mss n = ⟨t.buffered, t.queued, t.room - n⟩ := by
  rw [Tally.add, if_pos h]

/-- Bytes that need segments of their own. -/
theorem Tally.add_of_lt {t : Tally} {n : Nat} (h : t.room < n) (mss : Nat) :
    t.add mss n = ⟨t.buffered, t.queued + ikcpFragmentCount mss (n - t.room),
      ikcpFragmentCount mss (n - t.room) * mss - (n - t.room)⟩ := by
  rw [Tally.add, if_neg (not_le.mpr h)]

/-- As an `int` a length is no larger. -/
theorem ikcpIntLen_le (data : List UInt8) : ikcpIntLen data ≤ data.length := by
  have hsize : ((Int32.size : Nat) : Int) = 2 ^ 32 := rfl
  rw [ikcpIntLen, Int32.toInt_ofNat', Int.bmod, hsize]
  split <;> omega

/-- A length from `2 ^ 31` on is negative as an `int`. -/
theorem ikcpIntLen_neg {data : List UInt8} (hge : 2 ^ 31 ≤ data.length)
    (hlt : data.length < 2 ^ 32) : ikcpIntLen data < 0 := by
  have hsize : ((Int32.size : Nat) : Int) = 2 ^ 32 := rfl
  rw [ikcpIntLen, Int32.toInt_ofNat', Int.bmod, hsize]
  split <;> omega

/-- The bytes that the length argument of `ikcp_write` admits. -/
theorem length_take_ikcpIntLen (data : List UInt8) :
    (data.take (ikcpIntLen data).toNat).length = (ikcpIntLen data).toNat := by
  have hle := ikcpIntLen_le data
  rw [List.length_take]
  omega

/-- Stream mode fills up the last segment first. -/
theorem ikcpWrite_tally_stream {kcp : IKCPCB} (hm : 0 < kcp.mss.toNat) (data : List UInt8)
    {alwaysStream : Bool} (hs : (decide (kcp.stream ≠ 0) || alwaysStream) = true) :
    (ikcpWrite kcp data alwaysStream).2.tally =
      kcp.tally.add kcp.mss.toNat (ikcpIntLen data).toNat := by
  unfold ikcpWrite
  by_cases hneg : ikcpIntLen data < 0
  · have hzero : (ikcpIntLen data).toNat = 0 := Int.toNat_of_nonpos hneg.le
    rw [if_pos hneg, hzero, Tally.add_zero]
  rw [if_neg hneg, hs]
  have hlength := length_take_ikcpIntLen data
  generalize data.take (ikcpIntLen data).toNat = buffer at hlength
  obtain ⟨hqueue, hroom, hrest⟩ := ikcpExtendTail_room kcp.mss.toNat kcp.sndQueue buffer
  have htail : kcp.tally.room = tailRoom kcp.mss.toNat kcp.sndQueue := rfl
  rw [← hlength]
  simp only [ite_true, true_and, Bool.not_true, Bool.false_eq_true, false_and, ite_false]
  generalize ikcpExtendTail kcp.mss.toNat kcp.sndQueue buffer = merged at hqueue hroom hrest
  by_cases hnil : merged.2 = []
  · rw [if_pos hnil]
    rw [hnil, List.length_nil] at hrest
    rw [Tally.add_of_le (by omega), htail, ← hroom]
    simp only [IKCPCB.tally, SendSide.tally, IKCPCB.sendSide, IKCPCB.setSndQueue, hqueue]
  · have hpos := List.length_pos_iff.mpr hnil
    rw [if_neg hnil, tally_fragments hm merged.1 true hpos, Tally.add_of_lt (by omega), htail,
      hrest, hqueue]
    rfl

/-- Message mode starts a new segment. -/
theorem ikcpWrite_tally_message {kcp : IKCPCB} (hm : 0 < kcp.mss.toNat) {data : List UInt8}
    (hs : kcp.stream = 0) (hpos : 0 < ikcpIntLen data) (hok : (ikcpWrite kcp data false).1 = 0) :
    (ikcpWrite kcp data false).2.tally =
      kcp.tally.sealed.add kcp.mss.toNat (ikcpIntLen data).toNat := by
  have hlength := length_take_ikcpIntLen data
  unfold ikcpWrite at hok ⊢
  rw [if_neg (not_lt.mpr hpos.le)] at hok ⊢
  generalize data.take (ikcpIntLen data).toNat = buffer at hlength hok ⊢
  have hbuffer : 0 < buffer.length := by omega
  simp only [hs, ne_eq, not_true_eq_false, decide_false, Bool.or_false, Bool.false_eq_true,
    ite_false, false_and, Bool.not_false, true_and] at hok ⊢
  split
  · rename_i hcount
    rw [if_pos hcount] at hok
    cases hok
  · rw [tally_fragments hm kcp.sndQueue false hbuffer, ← hlength, Tally.add_of_lt hbuffer]
    rfl

end Write

section Flush

/-- How many segments a flush may put in flight. -/
def ikcpFlushFree (kcp : IKCPCB) : Nat :=
  (ikcpFlushWnd kcp).toNat - dist kcp.sndUna kcp.sndNxt

/-- The fill loop takes as many segments off the queue as the window has free numbers. -/
theorem ikcpFillLoop_sndQueue (cwnd wnd current : UInt32) (queue : List IKCPSEG) (kcp : IKCPCB)
    (hcwnd : cwnd.toNat < 2 ^ 16) (hflight : dist kcp.sndUna kcp.sndNxt < 2 ^ 16) :
    (ikcpFillLoop cwnd wnd current queue kcp).sndQueue =
      queue.drop (cwnd.toNat - dist kcp.sndUna kcp.sndNxt) := by
  induction queue generalizing kcp with
  | nil => rw [List.drop_nil, ikcpFillLoop]
  | cons seg queue ih =>
      have hdiff : itimediff kcp.sndNxt (kcp.sndUna + cwnd) =
          (dist kcp.sndUna kcp.sndNxt : Int) - cwnd.toNat := by
        rw [itimediff, diff_eq_sub (b := kcp.sndUna) (by omega) (by rw [dist_add]; omega),
          dist_add]
      unfold ikcpFillLoop
      rw [hdiff]
      by_cases hopen : (dist kcp.sndUna kcp.sndNxt : Int) - cwnd.toNat < 0
      · have hnxt : dist kcp.sndUna (kcp.sndNxt + 1) = dist kcp.sndUna kcp.sndNxt + 1 :=
          dist_succ (by omega)
        obtain ⟨free, hfree⟩ : ∃ free, cwnd.toNat - dist kcp.sndUna kcp.sndNxt = free + 1 :=
          ⟨cwnd.toNat - dist kcp.sndUna kcp.sndNxt - 1, by omega⟩
        rw [if_pos hopen, ih _ (by simp only [hnxt]; omega), hfree, List.drop_succ_cons]
        simp only [hnxt]
        congr 1
        omega
      · rw [if_neg hopen, show cwnd.toNat - dist kcp.sndUna kcp.sndNxt = 0 by omega, List.drop_zero]

theorem tailRoom_drop (mss : Nat) (queue : List IKCPSEG) (n : Nat) :
    tailRoom mss (queue.drop n) = if queue.length ≤ n then 0 else tailRoom mss queue := by
  split
  · rename_i hle
    rw [List.drop_eq_nil_of_le hle]
    rfl
  · rename_i hlt
    have hne : queue.drop n ≠ [] := by
      rw [ne_eq, List.drop_eq_nil_iff]
      exact hlt
    have htail := tailRoom_append mss (queue.take n) hne
    rw [List.take_append_drop] at htail
    exact htail.symm

/-- The probe timer leaves the windows of a flush alone. -/
theorem ikcpFlushWnd_ikcpProbed (kcp : IKCPCB) (current : UInt32) :
    ikcpFlushWnd (ikcpProbed kcp current) = ikcpFlushWnd kcp := by
  have htimer (k : IKCPCB) : ikcpFlushWnd (ikcpProbeTimer k) = ikcpFlushWnd k := by
    simp only [ikcpProbeTimer]
    repeat' split
    all_goals simp only [ikcpFlushWnd]
  exact htimer _

/-- A flush puts queued segments in flight as far as its window allows. -/
theorem ikcpFlush_tally {kcp : IKCPCB} (h : kcp.sendSide.Inv) (current : UInt32) :
    (ikcpFlush kcp current).kcp.tally = kcp.tally.flush (ikcpFlushFree kcp) := by
  obtain ⟨moved, rest, hqueue, hside, _⟩ := ikcpFlush_fill h current
  have hprobed := (ikcpProbed_sides kcp current).1
  have hwnd := (ikcpFlushWnd_le kcp).2
  have hflight : dist kcp.sndUna kcp.sndNxt < 2 ^ 16 := h.flight_lt
  have hrmt : kcp.rmtWnd.toNat < 2 ^ 16 := h.rmt_lt
  have huna : (ikcpProbed kcp current).sndUna = kcp.sndUna := congrArg SendSide.una hprobed
  have hnxt : (ikcpProbed kcp current).sndNxt = kcp.sndNxt := congrArg SendSide.nxt hprobed
  have hrest : rest = kcp.sndQueue.drop (ikcpFlushFree kcp) := by
    have hloop := ikcpFillLoop_sndQueue (ikcpFlushWnd (ikcpProbed kcp current))
      (ikcpWndUnused kcp) current (ikcpProbed kcp current).sndQueue (ikcpProbed kcp current)
      (by rw [ikcpFlushWnd_ikcpProbed]; omega) (by rwa [huna, hnxt])
    rw [← ikcpFlushHead_kcp, huna, hnxt, ikcpFlushWnd_ikcpProbed] at hloop
    have hfill : rest = (ikcpFlushHead kcp current).1.sndQueue := by
      rw [ikcpFlush_sendSide] at hside
      exact (congrArg SendSide.queue hside).symm
    rw [hfill, hloop, show (ikcpProbed kcp current).sndQueue = kcp.sndQueue from
      congrArg SendSide.queue hprobed]
    rfl
  have hlength : moved.length + rest.length = kcp.sndQueue.length := by
    rw [hqueue, List.length_append]
  have hdrop : rest.length = kcp.sndQueue.length - ikcpFlushFree kcp := by
    rw [hrest, List.length_drop]
  have hroom := tailRoom_drop kcp.mss.toNat kcp.sndQueue (ikcpFlushFree kcp)
  rw [← hrest] at hroom
  have htally : (ikcpFlush kcp current).kcp.tally =
      ⟨kcp.sndBuf.length + moved.length, rest.length, tailRoom kcp.mss.toNat rest⟩ := by
    rw [IKCPCB.tally, hside]
    simp [SendSide.tally, SendSide.fill, IKCPCB.sendSide]
  have hbefore : kcp.tally =
      ⟨kcp.sndBuf.length, kcp.sndQueue.length, tailRoom kcp.mss.toNat kcp.sndQueue⟩ := by
    simp [IKCPCB.tally, SendSide.tally, IKCPCB.sendSide]
  rw [htally, hbefore, hroom, Tally.flush]
  by_cases hall : kcp.sndQueue.length ≤ ikcpFlushFree kcp
  · simp only [hall, ite_true, Tally.mk.injEq, and_true]
    omega
  · simp only [hall, ite_false, Tally.mk.injEq, and_true]
    omega

/-- A flush takes nothing off what waits. -/
theorem ikcpNeedDrain_ikcpFlush {kcp : IKCPCB} (h : kcp.sendSide.Inv) (current : UInt32) :
    ikcpNeedDrain (ikcpFlush kcp current).kcp = ikcpNeedDrain kcp := by
  have hinv : (ikcpFlush kcp current).kcp.sendSide.Inv := by
    obtain ⟨moved, rest, _, hside, hfill⟩ := ikcpFlush_fill h current
    rw [hside]
    exact hfill
  have hwnd : (ikcpFlush kcp current).kcp.sndWnd = kcp.sndWnd :=
    congrArg Config.sndWnd (ikcpFlush_config kcp current)
  rw [Bool.eq_iff_iff, ikcpNeedDrain_iff hinv, ikcpNeedDrain_iff h, hwnd, ikcpFlush_tally h,
    Tally.flush_waiting]

end Flush

section Input

/-- The sequence numbers in flight. -/
def IKCPCB.inFlight (kcp : IKCPCB) : List UInt32 := kcp.sndBuf.map IKCPSEG.sn

/-- The numbers that an accepted segment leaves in flight: those before its `una` are dropped from
the front, and an acknowledgement takes its own number out. -/
def unackedBy (flight : List UInt32) (seg : IKCPSEG) : List UInt32 :=
  let flight := flight.dropWhile fun sn => decide (itimediff seg.una sn > 0)
  if seg.cmd = ikcpCmdAck then flight.erase seg.sn else flight

/-- The numbers that are in flight after a datagram. -/
def IKCPCB.unacked (kcp : IKCPCB) (data : List UInt8) : List UInt32 :=
  if ikcpIntLen data < ikcpOverhead then kcp.inFlight
  else (ikcpSegments data.length kcp.conv data).2.1.foldl unackedBy kcp.inFlight

/-- What is in flight is part of the sending half. -/
theorem inFlight_of_sendSide {kcp kcp' : IKCPCB} (h : kcp'.sendSide = kcp.sendSide) :
    kcp'.inFlight = kcp.inFlight := by
  have hside (k : IKCPCB) : k.inFlight = k.sendSide.buf.map IKCPSEG.sn :=
    (map_core_sn k.sndBuf).symm
  rw [hside, hside, h]

/-- The numbers below `una` are dropped from the front. -/
theorem ikcpParseUnaLoop_sns (una : UInt32) (buf : List IKCPSEG) (n : UInt32) :
    (ikcpParseUnaLoop una buf n).1.map IKCPSEG.sn =
      (buf.map IKCPSEG.sn).dropWhile fun sn => decide (itimediff una sn > 0) := by
  induction buf generalizing n with
  | nil => rfl
  | cons seg buf ih =>
      unfold ikcpParseUnaLoop
      rw [List.map_cons]
      split
      · rename_i hbefore
        rw [ih, List.dropWhile_cons_of_pos (by simpa using hbefore)]
      · rename_i hbefore
        rw [List.dropWhile_cons_of_neg (by simpa using hbefore), List.map_cons]

/-- In an ascending window the search for a number does not stop before it. -/
theorem ikcpParseAckLoop_sns {base : UInt32} {size : Nat} (sn : UInt32) (buf : List IKCPSEG)
    (n : UInt32) (hwithin : Within base size (buf.map IKCPSEG.sn)) (hsize : size < 2 ^ 31) :
    (ikcpParseAckLoop sn buf n).1.map IKCPSEG.sn = (buf.map IKCPSEG.sn).erase sn := by
  induction buf with
  | nil => rfl
  | cons seg buf ih =>
      have hrest := ih (hwithin.sublist (List.sublist_cons_self _ _))
      unfold ikcpParseAckLoop
      rw [List.map_cons]
      by_cases heq : sn = seg.sn
      · rw [if_pos heq, heq, List.erase_cons_head]
      rw [if_neg heq, List.erase_cons_tail (by simpa using Ne.symm heq)]
      split
      · rename_i hstop
        have hnot : sn ∉ buf.map IKCPSEG.sn := by
          intro hmem
          have hlt := List.rel_of_pairwise_cons hwithin.ascending hmem
          have hsn := hwithin.bounded sn (List.mem_cons_of_mem _ hmem)
          rw [itimediff, diff_eq_sub (b := base) (by omega) (by omega)] at hstop
          omega
        rw [List.erase_of_not_mem hnot, List.map_cons]
      · rw [← hrest, ← List.map_cons]

/-- The acknowledged number is dropped. -/
theorem ikcpParseAck_inFlight {kcp : IKCPCB} (h : kcp.sendSide.Inv) (sn : UInt32) :
    (ikcpParseAck kcp sn).inFlight = kcp.inFlight.erase sn := by
  have hwithin : Within kcp.sndUna (dist kcp.sndUna kcp.sndNxt) kcp.inFlight := by
    have hside := h.within
    rwa [show kcp.sendSide.buf.map IKCPSEG.sn = kcp.inFlight from map_core_sn kcp.sndBuf] at hside
  have hflight : dist kcp.sndUna kcp.sndNxt < 2 ^ 16 := h.flight_lt
  unfold ikcpParseAck
  split
  · rename_i hout
    have hnot : sn ∉ kcp.inFlight := by
      intro hmem
      have hlt := hwithin.bounded sn hmem
      rw [itimediff, itimediff, diff_eq_sub (b := kcp.sndUna) (by omega) (by simp),
        diff_eq_sub (b := kcp.sndUna) (by omega) (by omega), dist_self] at hout
      omega
    rw [List.erase_of_not_mem hnot]
  · exact ikcpParseAckLoop_sns sn kcp.sndBuf kcp.nsndBuf hwithin (by omega)

/-- Moving `snd_una` drops nothing. -/
@[simp] theorem ikcpShrinkBuf_inFlight (kcp : IKCPCB) :
    (ikcpShrinkBuf kcp).inFlight = kcp.inFlight := by
  unfold ikcpShrinkBuf
  split <;> rfl

/-- An acknowledgement drops its number only. -/
theorem ikcpInputAck_inFlight {st : InputState} (h : st.kcp.sendSide.Inv) (seg : IKCPSEG) :
    (ikcpInputAck st seg).kcp.inFlight = st.kcp.inFlight.erase seg.sn := by
  have hack (kcp : IKCPCB) (hk : kcp.sendSide = st.kcp.sendSide) :
      (ikcpShrinkBuf (ikcpParseAck kcp seg.sn)).inFlight = st.kcp.inFlight.erase seg.sn := by
    rw [ikcpShrinkBuf_inFlight, ikcpParseAck_inFlight (hk ▸ h), inFlight_of_sendSide hk]
  unfold ikcpInputAck
  cases st.maxack <;> simp only <;> split
  all_goals exact hack _ rfl

/-- An accepted segment takes the numbers it acknowledges out of flight and leaves the queue. -/
theorem ikcpInputSeg_inFlight {st : InputState} (h : st.kcp.sendSide.Inv) {seg : IKCPSEG}
    (hw : seg.wnd.toNat < 2 ^ 16) :
    (ikcpInputSeg st seg).kcp.inFlight = unackedBy st.kcp.inFlight seg := by
  have hr : ({ st.kcp with rmtWnd := seg.wnd } : IKCPCB).sendSide.Inv := h.setRmt hw
  have hinv : (ikcpInputCommon st.kcp seg).sendSide.Inv := (ikcpParseUna_shrunk hr seg.una).inv hr
  have hcommon : (ikcpInputCommon st.kcp seg).inFlight =
      st.kcp.inFlight.dropWhile fun sn => decide (itimediff seg.una sn > 0) := by
    rw [ikcpInputCommon, ikcpShrinkBuf_inFlight]
    exact ikcpParseUnaLoop_sns seg.una st.kcp.sndBuf st.kcp.nsndBuf
  unfold ikcpInputSeg unackedBy
  rw [← hcommon]
  simp only
  split
  · exact ikcpInputAck_inFlight hinv seg
  split
  · exact inFlight_of_sendSide (ikcpInputPush_sendSide _ seg)
  split
  · rfl
  · rfl

/-- No segment that arrives touches what is queued. -/
theorem ikcpInputSeg_sndQueue {st : InputState} (h : st.kcp.sendSide.Inv) {seg : IKCPSEG}
    (hw : seg.wnd.toNat < 2 ^ 16) :
    (ikcpInputSeg st seg).kcp.sndQueue = st.kcp.sndQueue := by
  obtain ⟨kept, _, _, heq⟩ := ikcpInputSeg_shrunk h hw
  exact congrArg SendSide.queue heq

/-- A datagram acknowledges as its segments say, also when one of them is refused later. -/
theorem ikcpInput_waiting {kcp : IKCPCB} (h : kcp.sendSide.Inv) (data : List UInt8) :
    (ikcpInput kcp data).2.tally.waiting = (kcp.unacked data).length + kcp.sndQueue.length := by
  have hwaiting (k : IKCPCB) : k.tally.waiting = k.inFlight.length + k.sndQueue.length := by
    simp [IKCPCB.tally, SendSide.tally, IKCPCB.sendSide, Tally.waiting, IKCPCB.inFlight]
  have hfold (segs : List IKCPSEG) (hsegs : ∀ seg ∈ segs, seg.wnd.toNat < 2 ^ 16)
      (st : InputState) (hst : st.kcp.sendSide.Inv) :
      (segs.foldl ikcpInputSeg st).kcp.inFlight = segs.foldl unackedBy st.kcp.inFlight ∧
        (segs.foldl ikcpInputSeg st).kcp.sndQueue = st.kcp.sndQueue := by
    induction segs generalizing st with
    | nil => exact ⟨rfl, rfl⟩
    | cons seg segs ih =>
        have hw := hsegs seg List.mem_cons_self
        obtain ⟨hflight, hqueue⟩ := ih (fun s hs => hsegs s (List.mem_cons_of_mem _ hs))
          (ikcpInputSeg st seg) (ikcpInputSeg_sendSide_inv hst hw)
        rw [ikcpInputSeg_inFlight hst hw] at hflight
        rw [ikcpInputSeg_sndQueue hst hw] at hqueue
        exact ⟨hflight, hqueue⟩
  obtain ⟨hflight, hqueue⟩ := hfold (ikcpSegments data.length kcp.conv data).2.1
    (fun seg hseg => by
      obtain ⟨bytes, rest, hread⟩ := ikcpSegments_read hseg
      exact ikcpReadSeg_wnd_lt hread) ⟨kcp, none⟩ h
  rw [ikcpInput_eq, IKCPCB.unacked]
  split
  · exact hwaiting kcp
  rw [← hflight, ← hqueue, ← hwaiting]
  simp only
  split
  · rfl
  · rw [IKCPCB.tally, (ikcpInputEnd_sides _ _).1, ← IKCPCB.tally]

end Input

end CodeBlocks.Kcp
