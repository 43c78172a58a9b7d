import CodeBlocks.Kcp.Invariant.Input

/-!
# What a receiver keeps of a datagram

A receiver has one segment of each number: the one in its buffer, or else the
first that is pushed while its window covers the number. The window moves while
a datagram is read, over the numbers that have arrived, as far as the queue has
room. So the segments that a receiver has after a datagram can be told from the
state before it and the segments in it.
-/

namespace CodeBlocks.Kcp

open Serial

/-! ## Moving to the queue -/

/-- Segments move on until the number waited for is missing or the queue is full. -/
def ReceiveSide.Moved (r : ReceiveSide) : Prop :=
  r.queue.length = r.wnd.toNat ∨ ∀ seg ∈ r.buf, seg.sn ≠ r.nxt

/-- The loop stops at a full queue or at a segment that is not the one waited for. -/
theorem ikcpMoveLoop_front (buf : List IKCPSEG) (kcp : IKCPCB) :
    ¬ (ikcpMoveLoop buf kcp).nrcvQue < (ikcpMoveLoop buf kcp).rcvWnd ∨
      ∀ seg rest, (ikcpMoveLoop buf kcp).rcvBuf = seg :: rest →
        seg.sn ≠ (ikcpMoveLoop buf kcp).rcvNxt := by
  induction buf generalizing kcp with
  | nil =>
      refine Or.inr fun seg rest hbuf => ?_
      cases hbuf
  | cons seg buf ih =>
      unfold ikcpMoveLoop
      split
      · exact ih _
      · rename_i hstop
        refine (not_and_or.mp hstop).symm.imp_right fun hsn first rest hbuf => ?_
        cases hbuf
        exact hsn

/-- After the move the segments have moved on. -/
theorem ikcpMove_moved {kcp : IKCPCB} (h : kcp.receiveSide.Inv) :
    (ikcpMove kcp).receiveSide.Moved := by
  have hinv := ikcpMove_inv h
  rcases ikcpMoveLoop_front kcp.rcvBuf kcp with hfull | hfront
  · left
    have hle := hinv.nque_le
    have hwnd := hinv.wnd_lt
    have hge : (ikcpMove kcp).receiveSide.wnd.toNat ≤ (ikcpMove kcp).receiveSide.nque.toNat :=
      UInt32.le_iff_toNat_le.mp (UInt32.not_lt.mp hfull)
    rw [hinv.nque_eq, UInt32.toNat_ofNat', Nat.mod_eq_of_lt (by omega)] at hge
    omega
  · right
    have hwithin := hinv.within
    intro seg hseg
    cases hbuf : (ikcpMove kcp).receiveSide.buf with
    | nil =>
        rw [hbuf] at hseg
        cases hseg
    | cons first rest =>
        rw [hbuf] at hseg hwithin
        exact hwithin.ne_base (hfront first rest hbuf) seg.sn (List.mem_map_of_mem hseg)

/-- A run of segments has been passed over, and stands at the end of the queue. -/
structure ReceiveSide.Passes (r r' : ReceiveSide) (moved : List IKCPSEG) : Prop where
  consecutive : Consecutive r.nxt moved
  nxt_eq : r'.nxt = r.nxt + UInt32.ofNat moved.length
  queue_eq : r'.queue = r.queue ++ moved
  wnd_eq : r'.wnd = r.wnd

namespace ReceiveSide.Passes

/-- Nothing passes when nothing happens. -/
theorem refl (r : ReceiveSide) : r.Passes r [] where
  consecutive := trivial
  nxt_eq := (UInt32.add_zero _).symm
  queue_eq := (List.append_nil _).symm
  wnd_eq := rfl

/-- One run passes after another. -/
theorem trans {r r₁ r₂ : ReceiveSide} {moved more : List IKCPSEG} (h : r.Passes r₁ moved)
    (hmore : r₁.Passes r₂ more) : r.Passes r₂ (moved ++ more) where
  consecutive := h.consecutive.append (h.nxt_eq ▸ hmore.consecutive)
  nxt_eq := by
    rw [hmore.nxt_eq, h.nxt_eq, List.length_append, UInt32.ofNat_add, UInt32.add_assoc]
  queue_eq := by rw [hmore.queue_eq, h.queue_eq, List.append_assoc]
  wnd_eq := hmore.wnd_eq.trans h.wnd_eq

end ReceiveSide.Passes

/-- The move passes the front of the buffer into the queue. -/
theorem ikcpMove_passes {kcp : IKCPCB} (h : kcp.receiveSide.Inv) :
    ∃ moved, kcp.receiveSide.Passes (ikcpMove kcp).receiveSide moved ∧
      kcp.rcvBuf = moved ++ (ikcpMove kcp).rcvBuf := by
  obtain ⟨moved, rest, hbuf, hcons, -, heq⟩ := ikcpMove_spec h
  rw [heq]
  exact ⟨moved, ⟨hcons, rfl, rfl, rfl⟩, hbuf⟩

/-- A PUSH segment leaves the segments moved on. -/
theorem ikcpInputPush_moved {kcp : IKCPCB} (h : kcp.receiveSide.Inv)
    (hmoved : kcp.receiveSide.Moved) (seg : IKCPSEG) :
    (ikcpInputPush kcp seg).receiveSide.Moved := by
  have hack := ikcpAckPush_inv h seg.sn seg.ts
  unfold ikcpInputPush
  split
  · simp only
    split
    · rcases ikcpParseData_cases hack seg with ⟨_, heq⟩ | ⟨_, ⟨_, heq⟩ | ⟨_, _, _, hinv, heq⟩⟩
      · rw [heq]
        exact hmoved
      · rw [heq]
        exact ikcpMove_moved hack
      · rw [heq]
        exact ikcpMove_moved hinv
    · exact hmoved
  · exact hmoved

/-- So does any segment of a datagram. -/
theorem ikcpInputSeg_moved {st : InputState} (h : st.kcp.receiveSide.Inv)
    (hmoved : st.kcp.receiveSide.Moved) (seg : IKCPSEG) :
    (ikcpInputSeg st seg).kcp.receiveSide.Moved := by
  rcases ikcpInputSeg_receiveSide st seg with hsame | ⟨_, kcp, hkcp, heq⟩
  · rwa [hsame]
  · rw [heq]
    exact ikcpInputPush_moved (hkcp ▸ h) (hkcp ▸ hmoved) seg

/-- Segments have moved on after every datagram. -/
theorem ikcpInput_moved {kcp : IKCPCB} (h : kcp.receiveSide.Inv)
    (hmoved : kcp.receiveSide.Moved) (data : List UInt8) :
    (ikcpInput kcp data).2.receiveSide.Moved := by
  refine (ikcpInput_induct (P := fun k => k.receiveSide.Inv ∧ k.receiveSide.Moved) data
    ⟨h, hmoved⟩ ?_ ?_).2
  · intro st seg _ hst
    exact ⟨ikcpInputSeg_receiveSide_inv hst.1 seg, ikcpInputSeg_moved hst.1 hst.2 seg⟩
  · intro st hst
    rwa [(ikcpInputEnd_sides st kcp.sndUna).2]

/-- So does reading. -/
theorem ikcpRecv_moved {kcp : IKCPCB} (h : kcp.receiveSide.Inv) (hmoved : kcp.receiveSide.Moved)
    (len : Int32) : (ikcpRecv kcp len).kcp.receiveSide.Moved := by
  rcases ikcpRecv_cases kcp len with ⟨_, _, heq⟩ | ⟨_, _, recover, heq⟩
  · rwa [heq]
  · rw [heq, ikcpRecover_receiveSide]
    split
    · exact ikcpMove_moved h
    · exact ikcpMove_moved (ikcpDeliver_inv h)

/-! ## One segment of each number -/

/-- A segment of the number is in the buffer or has been pushed. -/
def IKCPCB.Arrived (kcp : IKCPCB) (segs : List IKCPSEG) (sn : UInt32) : Prop :=
  ∃ seg, (seg ∈ kcp.rcvBuf ∨ seg ∈ segs ∧ seg.cmd = ikcpCmdPush) ∧ seg.sn = sn

/-- The window covers the number once some segments have come: its lower end has passed numbers that
have arrived, no more than the queue has room for. -/
def IKCPCB.Covers (kcp : IKCPCB) (segs : List IKCPSEG) (sn : UInt32) : Prop :=
  ∃ passed, kcp.rcvQueue.length + passed ≤ kcp.rcvWnd.toNat ∧
    (∀ k < passed, kcp.Arrived segs (kcp.rcvNxt + UInt32.ofNat k)) ∧
      dist kcp.rcvNxt sn < passed + kcp.rcvWnd.toNat

/-- The receiver has the segment after a datagram: it is in the buffer, or else the first of its
number that is pushed while the window covers the number. -/
def IKCPCB.Keeps (kcp : IKCPCB) (segs : List IKCPSEG) (seg : IKCPSEG) : Prop :=
  seg ∈ kcp.rcvBuf ∨ (∀ s ∈ kcp.rcvBuf, s.sn ≠ seg.sn) ∧
    ∃ before after, segs = before ++ seg :: after ∧ seg.cmd = ikcpCmdPush ∧
      kcp.Covers before seg.sn ∧
        ∀ before' s after', before = before' ++ s :: after' → s.cmd = ikcpCmdPush →
          s.sn = seg.sn → ¬ kcp.Covers before' s.sn

namespace IKCPCB

variable {kcp : IKCPCB} {segs : List IKCPSEG} {seg : IKCPSEG}

/-- Before the first segment the buffer holds what it held. -/
theorem keeps_nil : kcp.Keeps [] seg ↔ seg ∈ kcp.rcvBuf := by
  constructor
  · rintro (hbuf | ⟨-, before, after, hsegs, -⟩)
    · exact hbuf
    · exact absurd hsegs.symm (by simp)
  · exact Or.inl

/-- What is kept has arrived. -/
theorem Keeps.arrived (h : kcp.Keeps segs seg) : kcp.Arrived segs seg.sn := by
  rcases h with hbuf | ⟨-, before, after, rfl, hpush, -⟩
  · exact ⟨seg, Or.inl hbuf, rfl⟩
  · exact ⟨seg, Or.inr ⟨by simp, hpush⟩, rfl⟩

/-- Of a number that is pushed while the window covers it, the receiver has a segment. -/
theorem exists_keeps {before after : List IKCPSEG} (hsegs : segs = before ++ seg :: after)
    (hpush : seg.cmd = ikcpCmdPush) (hcovers : kcp.Covers before seg.sn) :
    ∃ kept, kcp.Keeps segs kept ∧ kept.sn = seg.sn := by
  by_cases hbuf : ∃ s ∈ kcp.rcvBuf, s.sn = seg.sn
  · obtain ⟨s, hs, hsn⟩ := hbuf
    exact ⟨s, Or.inl hs, hsn⟩
  have hnew : ∀ s ∈ kcp.rcvBuf, s.sn ≠ seg.sn := fun s hs hsn => hbuf ⟨s, hs, hsn⟩
  -- the first such segment is the one that is kept
  induction hlen : before.length using Nat.strong_induction_on generalizing before seg after with
  | _ n ih =>
      by_cases hfirst : ∃ before' s after', before = before' ++ s :: after' ∧
        s.cmd = ikcpCmdPush ∧ s.sn = seg.sn ∧ kcp.Covers before' s.sn
      · obtain ⟨before', s, after', rfl, hs, hsn, hs'⟩ := hfirst
        have hshort : before'.length < n := by
          rw [← hlen, List.length_append, List.length_cons]
          omega
        have hsplit : segs = before' ++ s :: (after' ++ seg :: after) := by
          rw [hsegs, List.append_assoc, List.cons_append]
        have hprior := ih before'.length hshort hsplit hs hs' (hsn ▸ hbuf) (hsn ▸ hnew) rfl
        obtain ⟨kept, hkept, hsn'⟩ := hprior
        exact ⟨kept, hkept, hsn'.trans hsn⟩
      · refine ⟨seg, Or.inr ⟨hnew, before, after, hsegs, hpush, hcovers, ?_⟩, rfl⟩
        intro before' s after' hbefore hs hsn hs'
        exact hfirst ⟨before', s, after', hbefore, hs, hsn, hs'⟩

/-- One more segment: it is kept if it is pushed, the window covers its number and the receiver has
none of that number. -/
theorem keeps_append_singleton {x : IKCPSEG} :
    kcp.Keeps (segs ++ [seg]) x ↔ kcp.Keeps segs x ∨
      x = seg ∧ seg.cmd = ikcpCmdPush ∧ kcp.Covers segs seg.sn ∧
        ∀ kept, kcp.Keeps segs kept → kept.sn ≠ seg.sn := by
  constructor
  · rintro (hbuf | ⟨hnew, before, after, hsegs, hpush, hcovers, hfirst⟩)
    · exact Or.inl (Or.inl hbuf)
    rcases List.eq_nil_or_concat after with rfl | ⟨after', last, rfl⟩
    · obtain ⟨rfl, hx⟩ := List.append_inj' hsegs rfl
      obtain rfl := (List.singleton_inj.mp hx).symm
      refine Or.inr ⟨rfl, hpush, hcovers, ?_⟩
      rintro kept (hbuf | ⟨-, before', after', rfl, hkept, hcovers', -⟩) hsn
      · exact hnew kept hbuf hsn
      · exact hfirst before' kept after' rfl hkept hsn hcovers'
    · left
      rw [List.concat_eq_append, ← List.cons_append, ← List.append_assoc] at hsegs
      obtain ⟨rfl, -⟩ := List.append_inj' hsegs rfl
      exact Or.inr ⟨hnew, before, after', rfl, hpush, hcovers, hfirst⟩
  · rintro ((hbuf | ⟨hnew, before, after, rfl, hrest⟩) | ⟨rfl, hpush, hcovers, hnew⟩)
    · exact Or.inl hbuf
    · exact Or.inr ⟨hnew, before, after ++ [seg], by simp, hrest⟩
    · refine Or.inr ⟨fun s hs => hnew s (Or.inl hs), segs, [], rfl, hpush, hcovers, ?_⟩
      intro before s after hsegs hs hsn hcovers'
      obtain ⟨kept, hkept, hkept'⟩ := exists_keeps hsegs hs hcovers'
      exact hnew kept hkept (hkept'.trans hsn)

end IKCPCB

/-! ## Processing a datagram -/

/-- A pushed segment is stored when the window has its number and the buffer has not. -/
theorem ikcpInputPush_passes {kcp : IKCPCB} (h : kcp.receiveSide.Inv) (seg : IKCPSEG) :
    ∃ moved, kcp.receiveSide.Passes (ikcpInputPush kcp seg).receiveSide moved ∧
      ∀ x, x ∈ moved ++ (ikcpInputPush kcp seg).rcvBuf ↔ x ∈ kcp.rcvBuf ∨
        x = seg ∧ dist kcp.rcvNxt seg.sn < kcp.rcvWnd.toNat ∧
          ∀ s ∈ kcp.rcvBuf, s.sn ≠ seg.sn := by
  have hack := ikcpAckPush_inv h seg.sn seg.ts
  have hwindow := window_iff (b := kcp.rcvNxt) (x := seg.sn) h.wnd_lt
  have hout (hno : ¬ dist kcp.rcvNxt seg.sn < kcp.rcvWnd.toNat) (x : IKCPSEG) :
      x ∈ kcp.rcvBuf ↔ x ∈ kcp.rcvBuf ∨ x = seg ∧ dist kcp.rcvNxt seg.sn < kcp.rcvWnd.toNat ∧
        ∀ s ∈ kcp.rcvBuf, s.sn ≠ seg.sn :=
    ⟨Or.inl, fun hx => hx.resolve_right fun hnew => hno hnew.2.1⟩
  unfold ikcpInputPush
  split
  swap
  · rename_i hhi
    exact ⟨[], .refl _, hout fun hin => hhi (hwindow.mpr hin).1⟩
  simp only
  split
  swap
  · rename_i hlo
    exact ⟨[], ⟨trivial, (UInt32.add_zero _).symm, (List.append_nil _).symm, rfl⟩,
      hout fun hin => hlo (hwindow.mpr hin).2⟩
  rcases ikcpParseData_cases hack seg with
    ⟨hno, heq⟩ | ⟨hin, ⟨⟨s, hs, hsn⟩, heq⟩ | ⟨before, after, hbuf, hinv, heq⟩⟩
  · rw [heq]
    exact ⟨[], ⟨trivial, (UInt32.add_zero _).symm, (List.append_nil _).symm, rfl⟩, hout hno⟩
  · obtain ⟨moved, hpasses, hmoved⟩ := ikcpMove_passes hack
    rw [heq]
    refine ⟨moved, ⟨hpasses.consecutive, hpasses.nxt_eq, hpasses.queue_eq, hpasses.wnd_eq⟩, ?_⟩
    intro x
    rw [← hmoved]
    exact ⟨Or.inl, fun hx => hx.resolve_right fun hnew => hnew.2.2 s hs hsn⟩
  · obtain ⟨moved, hpasses, hmoved⟩ := ikcpMove_passes hinv
    have hold : kcp.rcvBuf = before ++ after := hbuf
    have hnew : ∀ s ∈ kcp.rcvBuf, s.sn ≠ seg.sn := by
      have hascending : ((before ++ seg :: after).map IKCPSEG.sn).Pairwise
          fun x y => dist kcp.rcvNxt x < dist kcp.rcvNxt y := hinv.within.ascending
      rw [List.map_append, List.map_cons, List.pairwise_append, List.pairwise_cons] at hascending
      obtain ⟨-, ⟨hafter, -⟩, hbefore⟩ := hascending
      rw [hold]
      intro s hs hsn
      rcases List.mem_append.mp hs with hs | hs
      · have hlt := hbefore s.sn (List.mem_map_of_mem hs) seg.sn List.mem_cons_self
        rw [hsn] at hlt
        exact lt_irrefl _ hlt
      · have hlt := hafter s.sn (List.mem_map_of_mem hs)
        rw [hsn] at hlt
        exact lt_irrefl _ hlt
    rw [heq]
    refine ⟨moved, ⟨hpasses.consecutive, hpasses.nxt_eq, hpasses.queue_eq, hpasses.wnd_eq⟩, ?_⟩
    intro x
    rw [← hmoved]
    change x ∈ before ++ seg :: after ↔ _
    rw [hold, List.mem_append, List.mem_cons, List.mem_append]
    constructor
    · rintro (hx | hx | hx)
      · exact Or.inl (Or.inl hx)
      · exact Or.inr ⟨hx, hin, hold ▸ hnew⟩
      · exact Or.inl (Or.inr hx)
    · rintro ((hx | hx) | ⟨hx, -⟩)
      · exact Or.inl hx
      · exact Or.inr (Or.inr hx)
      · exact Or.inr (Or.inl hx)

/-- What a receiver has after some segments: it has passed over a run of them and moved on as far as
it can, and the run and its buffer are what it keeps. -/
structure Intake (kcp : IKCPCB) (segs : List IKCPSEG) (r : ReceiveSide) (moved : List IKCPSEG) :
    Prop where
  inv : r.Inv
  front : r.Moved
  passes : kcp.receiveSide.Passes r moved
  kept : ∀ seg, seg ∈ moved ++ r.buf ↔ kcp.Keeps segs seg

namespace Intake

variable {kcp : IKCPCB} {segs : List IKCPSEG} {r : ReceiveSide} {moved : List IKCPSEG}

/-- The queue stays within the receive window. -/
theorem length_le (h : Intake kcp segs r moved) :
    kcp.rcvQueue.length + moved.length ≤ kcp.rcvWnd.toNat := by
  have hle := h.inv.nque_le
  rw [h.passes.queue_eq, h.passes.wnd_eq, List.length_append] at hle
  exact hle

theorem wnd_lt (h : Intake kcp segs r moved) : kcp.rcvWnd.toNat < 2 ^ 31 := by
  have hlt := h.inv.wnd_lt
  rw [h.passes.wnd_eq] at hlt
  exact hlt

/-- The number waited for has advanced by what has moved. -/
theorem dist_nxt (h : Intake kcp segs r moved) : dist kcp.rcvNxt r.nxt = moved.length := by
  have hle := h.length_le
  have hwnd := h.wnd_lt
  have hnxt : r.nxt = kcp.rcvNxt + UInt32.ofNat moved.length := h.passes.nxt_eq
  rw [hnxt, Serial.dist_add, UInt32.toNat_ofNat', Nat.mod_eq_of_lt (by omega)]

/-- The numbers behind the lower end of the window are those of the run. -/
theorem dist_lt (h : Intake kcp segs r moved) {seg : IKCPSEG} (hseg : seg ∈ moved) :
    dist kcp.rcvNxt seg.sn < moved.length := by
  have hle := h.length_le
  have hwnd := h.wnd_lt
  exact h.passes.consecutive.dist_lt (by omega) hseg

/-- Seen from the state before, the window reaches as far as the run and its size. -/
theorem covers_iff (h : Intake kcp segs r moved) (sn : UInt32) :
    kcp.Covers segs sn ↔ dist kcp.rcvNxt sn < moved.length + kcp.rcvWnd.toNat := by
  have hle := h.length_le
  have hwnd := h.wnd_lt
  constructor
  · rintro ⟨passed, hroom, harrived, hlt⟩
    by_contra hfar
    -- otherwise the number waited for has arrived, though the loop has stopped before it
    have hshort : moved.length < passed := by omega
    obtain ⟨seg, hseg, hsn⟩ := harrived moved.length hshort
    have hdist : dist kcp.rcvNxt seg.sn = moved.length := by
      rw [hsn, Serial.dist_add, UInt32.toNat_ofNat', Nat.mod_eq_of_lt (by omega)]
    have hkept : ∃ kept, kcp.Keeps segs kept ∧ kept.sn = seg.sn := by
      rcases hseg with hbuf | ⟨hmem, hpush⟩
      · exact ⟨seg, Or.inl hbuf, rfl⟩
      · obtain ⟨before, after, hsegs⟩ := List.append_of_mem hmem
        refine IKCPCB.exists_keeps hsegs hpush ⟨0, ?_, ?_, ?_⟩
        · omega
        · exact fun k hk => absurd hk (Nat.not_lt_zero k)
        · omega
    obtain ⟨kept, hkept, hsn'⟩ := hkept
    have hnxt : kept.sn = r.nxt := by
      rw [hsn', hsn]
      exact h.passes.nxt_eq.symm
    rcases List.mem_append.mp ((h.kept kept).mpr hkept) with hmoved | hbuf
    · have hlt := h.dist_lt hmoved
      rw [hsn'] at hlt
      omega
    · rcases h.front with hfull | hmissing
      · rw [h.passes.queue_eq, h.passes.wnd_eq, List.length_append] at hfull
        change kcp.rcvQueue.length + moved.length = kcp.rcvWnd.toNat at hfull
        omega
      · exact hmissing kept hbuf hnxt
  · intro hlt
    refine ⟨moved.length, hle, fun k hk => ?_, hlt⟩
    obtain ⟨seg, hseg, hsn⟩ := h.passes.consecutive.exists_sn hk
    have harrived := ((h.kept seg).mp (List.mem_append_left _ hseg)).arrived
    rwa [hsn] at harrived

/-- A segment that is not pushed changes nothing. -/
theorem skip (h : Intake kcp segs r moved) {seg : IKCPSEG} (hpush : seg.cmd ≠ ikcpCmdPush) :
    Intake kcp (segs ++ [seg]) r moved := by
  refine ⟨h.inv, h.front, h.passes, fun x => ?_⟩
  rw [h.kept, IKCPCB.keeps_append_singleton]
  exact ⟨Or.inl, fun hx => hx.resolve_right fun hnew => hpush hnew.2.1⟩

/-- A pushed segment is stored exactly when it is kept. -/
theorem push (h : Intake kcp segs r moved) {seg : IKCPSEG} (hpush : seg.cmd = ikcpCmdPush)
    {r' : ReceiveSide} {more : List IKCPSEG} (hinv : r'.Inv) (hfront : r'.Moved)
    (hpasses : r.Passes r' more)
    (hstored : ∀ x, x ∈ more ++ r'.buf ↔ x ∈ r.buf ∨ x = seg ∧ dist r.nxt seg.sn < r.wnd.toNat ∧
      ∀ s ∈ r.buf, s.sn ≠ seg.sn) :
    Intake kcp (segs ++ [seg]) r' (moved ++ more) := by
  have hle := h.length_le
  have hwnd := h.wnd_lt
  have hnxt := h.dist_nxt
  have hsize : r.wnd = kcp.rcvWnd := h.passes.wnd_eq
  refine ⟨hinv, hfront, h.passes.trans hpasses, fun x => ?_⟩
  have hnew : (dist r.nxt seg.sn < r.wnd.toNat ∧ ∀ s ∈ r.buf, s.sn ≠ seg.sn) ↔
      kcp.Covers segs seg.sn ∧ ∀ kept, kcp.Keeps segs kept → kept.sn ≠ seg.sn := by
    rw [h.covers_iff, hsize]
    constructor
    · rintro ⟨hin, hbuf⟩
      have hdist := Serial.dist_trans (b := kcp.rcvNxt) (c := r.nxt) (x := seg.sn) (by omega)
      refine ⟨by omega, fun kept hkept hsn => ?_⟩
      rcases List.mem_append.mp ((h.kept kept).mpr hkept) with hmoved | hmem
      · have hlt := h.dist_lt hmoved
        rw [hsn] at hlt
        omega
      · exact hbuf kept hmem hsn
    · rintro ⟨hin, hkept⟩
      have hge : moved.length ≤ dist kcp.rcvNxt seg.sn := by
        by_contra hlt
        obtain ⟨s, hs, hsn⟩ := h.passes.consecutive.exists_sn (not_le.mp hlt)
        refine hkept s ((h.kept s).mp (List.mem_append_left _ hs)) (hsn.trans ?_)
        exact Serial.add_dist kcp.rcvNxt seg.sn
      have hdist := Serial.dist_rebase (b := kcp.rcvNxt) (c := r.nxt) (x := seg.sn) (by omega)
      refine ⟨by omega, fun s hs => hkept s ((h.kept s).mp (List.mem_append_right _ hs))⟩
  rw [List.append_assoc, List.mem_append, hstored, hnew, IKCPCB.keeps_append_singleton,
    ← h.kept, List.mem_append, or_assoc]
  exact or_congr_right (or_congr_right (and_congr_right fun _ => (and_iff_right hpush).symm))

end Intake

/-- A PUSH segment of a datagram is pushed. -/
theorem ikcpInputSeg_of_push (st : InputState) {seg : IKCPSEG} (h : seg.cmd = ikcpCmdPush) :
    ∃ kcp : IKCPCB, kcp.receiveSide = st.kcp.receiveSide ∧
      (ikcpInputSeg st seg).kcp = ikcpInputPush kcp seg := by
  refine ⟨ikcpInputCommon st.kcp seg, ikcpInputCommon_receiveSide st.kcp seg, ?_⟩
  have hack : ¬ seg.cmd = ikcpCmdAck := by
    rw [h]
    decide
  unfold ikcpInputSeg
  rw [if_neg hack, if_pos h]

/-- One more segment is taken in. -/
theorem Intake.seg {kcp : IKCPCB} {segs : List IKCPSEG} {st : InputState} {moved : List IKCPSEG}
    (h : Intake kcp segs st.kcp.receiveSide moved) (seg : IKCPSEG) :
    ∃ moved', Intake kcp (segs ++ [seg]) (ikcpInputSeg st seg).kcp.receiveSide moved' := by
  by_cases hpush : seg.cmd = ikcpCmdPush
  · obtain ⟨kcp', hside, heq⟩ := ikcpInputSeg_of_push st hpush
    have hinv : kcp'.receiveSide.Inv := hside ▸ h.inv
    obtain ⟨more, hpasses, hstored⟩ := ikcpInputPush_passes hinv seg
    rw [heq]
    rw [← hside] at h
    exact ⟨moved ++ more, h.push hpush (ikcpInputPush_inv hinv seg)
      (ikcpInputPush_moved hinv h.front seg) hpasses hstored⟩
  · rcases ikcpInputSeg_receiveSide st seg with hsame | ⟨hpush', -⟩
    · rw [hsame]
      exact ⟨moved, h.skip hpush⟩
    · exact absurd hpush' hpush

/-- The segments of a datagram, one after the other. -/
theorem Intake.segments {kcp : IKCPCB} (h : kcp.receiveSide.Inv) (hmoved : kcp.receiveSide.Moved)
    (segs : List IKCPSEG) :
    ∃ moved, Intake kcp segs (segs.foldl ikcpInputSeg ⟨kcp, none⟩).kcp.receiveSide moved := by
  induction segs using List.reverseRecOn with
  | nil => exact ⟨[], h, hmoved, .refl _, fun seg => IKCPCB.keeps_nil.symm⟩
  | append_singleton segs seg ih =>
      obtain ⟨moved, hsegs⟩ := ih
      rw [List.foldl_append]
      exact hsegs.seg seg

/-- `ikcp_input` refuses a datagram that is too short or has a segment that the grammar refuses. -/
def IKCPCB.Refuses (kcp : IKCPCB) (data : List UInt8) : Prop :=
  ikcpIntLen data < ikcpOverhead ∨ (ikcpSegments data.length kcp.conv data).1 < 0

/-- `ikcp_input` answers with an error exactly for what it refuses. -/
theorem ikcpInput_neg_iff (kcp : IKCPCB) (data : List UInt8) :
    (ikcpInput kcp data).1 < 0 ↔ kcp.Refuses data := by
  unfold IKCPCB.Refuses
  rw [ikcpInput_eq]
  split
  · rename_i hshort
    exact ⟨fun _ => Or.inl hshort, fun _ => Int.negSucc_lt_zero 0⟩
  · rename_i hlong
    simp only
    split
    · rename_i hrc
      exact ⟨fun _ => Or.inr hrc, fun _ => hrc⟩
    · rename_i hrc
      exact ⟨fun h => absurd h (lt_irrefl 0), fun h => absurd h (not_or.mpr ⟨hlong, hrc⟩)⟩

/-- What a receiver has after a datagram that is not refused. -/
theorem ikcpInput_intake {kcp : IKCPCB} (h : kcp.receiveSide.Inv)
    (hmoved : kcp.receiveSide.Moved) {data : List UInt8} (haccepted : ¬ kcp.Refuses data) :
    ∃ moved, Intake kcp (ikcpSegments data.length kcp.conv data).2.1
      (ikcpInput kcp data).2.receiveSide moved := by
  obtain ⟨hlong, hrc⟩ := not_or.mp haccepted
  rw [ikcpInput_eq, if_neg hlong]
  simp only [if_neg hrc, (ikcpInputEnd_sides _ _).2]
  exact Intake.segments h hmoved _

end CodeBlocks.Kcp
