import CodeBlocks.Core.Arq
import CodeBlocks.Kcp.Session.Steps
import CodeBlocks.Kcp.Wire.Datagrams

/-!
# Two sessions and the channel between them

One direction of a pair of sessions, read as a numbered delivery protocol: the
items are the segments that the sender has numbered, the channel holds every
datagram ever output. As long as fewer than `2 ^ 30` numbers are given out, no
number wraps and the signed comparisons of the code are comparisons of naturals.
-/

namespace CodeBlocks.Kcp

open Serial

/-- The segments that the grammar reads from some datagrams. -/
def onWire (conv : UInt32) (bodies : List (List UInt8)) : List IKCPSEG :=
  bodies.flatMap fun body => (ikcpSegments body.length conv body).2.1

/-- The segments of datagrams come one datagram after another. -/
theorem onWire_append (conv : UInt32) (xs ys : List (List UInt8)) :
    onWire conv (xs ++ ys) = onWire conv xs ++ onWire conv ys :=
  List.flatMap_append

theorem mem_onWire {conv : UInt32} {bodies : List (List UInt8)} {body : List UInt8}
    (hb : body ∈ bodies) {seg : IKCPSEG}
    (hs : seg ∈ (ikcpSegments body.length conv body).2.1) : seg ∈ onWire conv bodies :=
  List.mem_flatMap.mpr ⟨body, hb, hs⟩

/-- Numbers below half of the circle compare as naturals. -/
theorem itimediff_eq_sub {x y : UInt32} (hx : x.toNat < 2 ^ 31) (hy : y.toNat < 2 ^ 31) :
    itimediff x y = (x.toNat : Int) - y.toNat := by
  rw [itimediff, diff_eq_sub (b := 0) (by rwa [dist_zero]) (by rwa [dist_zero]), dist_zero,
    dist_zero]

/-- One direction of a pair: the sending half and the datagrams of one side, the
receiving half and the datagrams of the other, and the numbered segments. -/
def arqState (conv : UInt32) (hist : List IKCPSEG) (tx : SendSide) (out : List (List UInt8))
    (rx : ReceiveSide) (back : List (List UInt8)) : Arq.State IKCPSEG where
  hist := hist
  unacked := { n | ∃ seg ∈ tx.buf, seg.sn.toNat = n }
  next := rx.nxt.toNat
  stored := { p | ∃ seg ∈ rx.buf, (seg.sn.toNat, seg.core) = p }
  wire := { p | ∃ seg ∈ onWire conv out, seg.cmd = ikcpCmdPush ∧ (seg.sn.toNat, seg.core) = p }
  acks := { n | (∃ entry ∈ rx.acks, entry.1.toNat = n) ∨
    ∃ seg ∈ onWire conv back, seg.cmd = ikcpCmdAck ∧ seg.sn.toNat = n }
  unas := { m | ∃ seg ∈ onWire conv back, seg.una.toNat = m }

/-- The payload is part of the core of a segment. -/
theorem payload_map_core (segs : List IKCPSEG) :
    payload (segs.map IKCPSEG.core) = payload segs := by
  rw [payload, payload, List.flatMap_map]
  rfl

theorem payload_numbered (conv nxt : UInt32) (segs : List IKCPSEG) :
    payload (numbered conv nxt segs) = payload segs := by
  induction segs generalizing nxt with
  | nil => rfl
  | cons seg segs ih =>
      simp only [payload] at ih ⊢
      rw [numbered, List.flatMap_cons, ih, List.flatMap_cons]

/-- The numbers of a consecutive run that does not wrap. -/
theorem Consecutive.toNat_eq {nxt : UInt32} {moved : List IKCPSEG} (h : Consecutive nxt moved)
    (hw : nxt.toNat + moved.length < 2 ^ 32) :
    moved.map (fun seg => seg.sn.toNat) = List.range' nxt.toNat moved.length := by
  induction moved generalizing nxt with
  | nil => rfl
  | cons seg moved ih =>
      rw [List.length_cons] at hw
      have hnxt : (nxt + 1).toNat = nxt.toNat + 1 := by
        rw [UInt32.toNat_add, UInt32.toNat_one]
        omega
      have hrest := ih h.2 (by omega)
      rw [List.map_cons, hrest, h.1, hnxt, List.length_cons, List.range'_succ]

/-- Passing over a consecutive run of stored items extends the passed prefix by them. -/
theorem Consecutive.take_eq {nxt : UInt32} {moved : List IKCPSEG} (h : Consecutive nxt moved)
    (hw : nxt.toNat + moved.length < 2 ^ 32) {hist : List IKCPSEG}
    (hs : ∀ seg ∈ moved, hist[seg.sn.toNat]? = some seg.core) :
    hist.take (nxt.toNat + moved.length) =
      hist.take nxt.toNat ++ moved.map IKCPSEG.core := by
  induction moved generalizing nxt with
  | nil => simp
  | cons seg moved ih =>
      rw [List.length_cons] at hw
      have hnxt : (nxt + 1).toNat = nxt.toNat + 1 := by
        rw [UInt32.toNat_add, UInt32.toNat_one]
        omega
      have hseg := hs seg List.mem_cons_self
      rw [h.1] at hseg
      have hrest := ih h.2 (by omega) fun s hm => hs s (List.mem_cons_of_mem _ hm)
      rw [hnxt, List.take_add_one, hseg, Option.toList_some, List.append_assoc,
        List.singleton_append] at hrest
      rw [List.length_cons, List.map_cons, ← hrest]
      congr 1
      omega

/-- Numbers given to queued segments are their positions in the history. -/
theorem getElem?_numbered (conv : UInt32) (moved : List IKCPSEG) (hist : List IKCPSEG)
    (hw : hist.length + moved.length < 2 ^ 32) :
    ∀ seg ∈ numbered conv (UInt32.ofNat hist.length) moved,
      (hist ++ numbered conv (UInt32.ofNat hist.length) moved)[seg.sn.toNat]? = some seg := by
  induction moved generalizing hist with
  | nil => simp [numbered]
  | cons queued moved ih =>
      intro seg hseg
      rw [List.length_cons] at hw
      rw [numbered] at hseg ⊢
      rcases List.mem_cons.mp hseg with rfl | hseg
      · have hsn : (UInt32.ofNat hist.length).toNat = hist.length := by
          rw [UInt32.toNat_ofNat', Nat.mod_eq_of_lt (by omega)]
        rw [hsn, List.getElem?_append_right le_rfl, Nat.sub_self, List.getElem?_cons_zero]
      · generalize IKCPSEG.mk _ _ _ _ _ _ _ _ _ _ _ _ = item at hseg ⊢
        have hrest := ih (hist ++ [item])
          (by rw [List.length_append, List.length_singleton]; omega)
        rw [List.length_append, List.length_singleton, UInt32.ofNat_add] at hrest
        have hfound := hrest seg hseg
        rwa [List.append_assoc, List.singleton_append] at hfound

/-- What the segments of a flush say: all announce `rcv_nxt`, acknowledgements are
entries of `acklist`, and pushed segments stand in `snd_buf`. -/
theorem ikcpFlushSegs_fields {kcp : IKCPCB} (h : kcp.Inv) (current : UInt32) {seg : IKCPSEG}
    (hseg : seg ∈ (ikcpFlushSegs kcp current).map IKCPSEG.received) :
    seg.una = kcp.rcvNxt ∧
      (seg.cmd = ikcpCmdAck → ∃ entry ∈ kcp.acklist, entry.1 = seg.sn) ∧
      (seg.cmd = ikcpCmdPush → seg.core ∈ (ikcpFlush kcp current).kcp.sendSide.buf) := by
  obtain ⟨sent, hsent, rfl⟩ := List.mem_map.mp hseg
  rcases List.mem_append.mp hsent with hsent | hdue
  · rcases List.mem_append.mp hsent with hack | hprobe
    · obtain ⟨hbare, hcmd⟩ := bare_ack hack
      obtain ⟨entry, hentry, rfl⟩ := List.mem_map.mp hack
      refine ⟨hbare.una_eq, fun _ => ⟨entry, hentry, rfl⟩, fun hpush => ?_⟩
      exact absurd (hcmd.symm.trans hpush) (by decide)
    · obtain ⟨hbare, hcmd⟩ := bare_probe hprobe
      refine ⟨hbare.una_eq, fun hack => ?_, fun hpush => ?_⟩
      · rcases hcmd with hcmd | hcmd <;> exact absurd (hcmd.symm.trans hack) (by decide)
      · rcases hcmd with hcmd | hcmd <;> exact absurd (hcmd.symm.trans hpush) (by decide)
  · have hcore := mem_ikcpDueSegs hdue
    have hpushed := (ikcpFlushHead_inv h.send current).pushed sent.core hcore
    rw [ikcpFlush_sendSide]
    refine ⟨?_, fun hack => absurd (hpushed.2.symm.trans hack) (by decide), fun _ => hcore⟩
    obtain ⟨queued, _, rfl⟩ := List.mem_map.mp hdue
    change (ikcpFlushHead kcp current).1.rcvNxt = kcp.rcvNxt
    have hr := ikcpFlushHead_kcp kcp current
    rw [hr]
    exact congrArg ReceiveSide.nxt ((ikcpFillLoop_receiveSide _ _ _ _ _).trans
      (ikcpProbed_sides kcp current).2.1)

/-- One direction of a pair of sessions, `a` sending and `b` receiving, after the
segments of `hist` were numbered; `pending` are the bytes of a write at `a` that
is not finished. Bytes of writes to a closed session are lost. -/
structure Linked (a b : KCPSession) (hist : List IKCPSEG) (pending : List UInt8) : Prop where
  tx : a.kcp.Inv
  rx : b.kcp.Inv
  conv_eq : b.kcp.conv = a.kcp.conv
  message_set : b.callbacks.message = true
  mss_le : a.kcp.mss.toNat ≤ kMaxPacketSize
  rcvWnd_le : b.kcp.rcvWnd.toNat ≤ 128
  bound : hist.length < 2 ^ 30
  short : ∀ seg ∈ hist, seg.data.length ≤ kMaxPacketSize
  queue_short : ∀ seg ∈ b.kcp.rcvQueue, seg.data.length ≤ kMaxPacketSize
  assigned_eq : a.assigned = hist.length
  nxt_eq : a.kcp.sndNxt = UInt32.ofNat hist.length
  buffered : ∀ seg ∈ a.kcp.sendSide.buf, hist[seg.sn.toNat]? = some seg
  arq : (arqState a.kcp.conv hist a.kcp.sendSide a.outputs b.kcp.receiveSide b.outputs).Inv
  delivered_eq : b.delivered ++ payload b.kcp.rcvQueue = payload (hist.take b.kcp.rcvNxt.toNat)
  written_eq : (∀ data ∈ a.writes, data.length < 2 ^ 31) → ∃ lost,
    a.written = payload hist ++ payload a.kcp.sndQueue ++ lost ++ pending ∧
      (a.closed = false → lost = [])
  pending_le : pending = [] ∨ ∃ data ∈ a.writes, pending.length ≤ data.length

/-- The pair is linked until the sender has given out `2 ^ 30` numbers. -/
def Reliable (a b : KCPSession) (pending : List UInt8) : Prop :=
  2 ^ 30 ≤ a.assigned ∨ ∃ hist, Linked a b hist pending

end CodeBlocks.Kcp
