import CodeBlocks.Kcp.Invariant.Sides

/-!
# Receiving keeps its window

`ikcp_parse_data`, `ikcp_recv` and the loop that moves contiguous segments act
on the receiving half only. Each is described by the segments it moves; the
window invariant follows, since a segment leaves `rcv_buf` exactly when the
lower end of the window passes it.
-/

namespace CodeBlocks.Kcp

open Serial

/-- The receiving half after `moved` left the buffer for the queue. -/
def ReceiveSide.advance (r : ReceiveSide) (moved rest : List IKCPSEG) : ReceiveSide :=
  { r with
    nxt := r.nxt + UInt32.ofNat moved.length
    queue := r.queue ++ moved
    nque := r.nque + UInt32.ofNat moved.length
    buf := rest
    nbuf := r.nbuf - UInt32.ofNat moved.length }

/-- Segments carry consecutive numbers from `nxt` on. -/
def Consecutive : UInt32 → List IKCPSEG → Prop
  | _, [] => True
  | nxt, seg :: rest => seg.sn = nxt ∧ Consecutive (nxt + 1) rest

namespace Consecutive

variable {nxt : UInt32} {run more : List IKCPSEG}

/-- Consecutive numbers go on. -/
theorem append (h : Consecutive nxt run)
    (hmore : Consecutive (nxt + UInt32.ofNat run.length) more) : Consecutive nxt (run ++ more) := by
  induction run generalizing nxt with
  | nil => simpa using hmore
  | cons seg run ih =>
      refine ⟨h.1, ih h.2 ?_⟩
      rwa [add_one_add_length nxt seg run]

/-- The number of a segment in a run says its place. -/
theorem sn_eq (h : Consecutive nxt run) {k : Nat} {seg : IKCPSEG} (hk : run[k]? = some seg) :
    seg.sn = nxt + UInt32.ofNat k := by
  induction run generalizing nxt k with
  | nil => cases hk
  | cons first run ih =>
      cases k with
      | zero =>
          rw [← Option.some.inj hk, h.1]
          exact (UInt32.add_zero nxt).symm
      | succ k =>
          rw [ih h.2 hk, UInt32.ofNat_add]
          grind

/-- Every number of the run is there. -/
theorem exists_sn (h : Consecutive nxt run) {k : Nat} (hk : k < run.length) :
    ∃ seg ∈ run, seg.sn = nxt + UInt32.ofNat k :=
  ⟨run[k], List.getElem_mem hk, h.sn_eq (List.getElem?_eq_getElem hk)⟩

/-- A run that does not go around the circle stands within its length. -/
theorem dist_lt (h : Consecutive nxt run) (hlen : run.length ≤ 2 ^ 32) {seg : IKCPSEG}
    (hseg : seg ∈ run) : dist nxt seg.sn < run.length := by
  obtain ⟨k, hk⟩ := List.getElem?_of_mem hseg
  have hlt := (List.getElem?_eq_some_iff.mp hk).1
  rw [h.sn_eq hk, dist_add, UInt32.toNat_ofNat', Nat.mod_eq_of_lt (by omega)]
  exact hlt

/-- The numbers behind a run at the lower end of a window lie in the window behind it. -/
theorem within_behind (h : Consecutive nxt run) {n : Nat} {rest : List UInt32}
    (hwithin : Within nxt n (run.map IKCPSEG.sn ++ rest)) :
    Within (nxt + UInt32.ofNat run.length) n rest := by
  induction run generalizing nxt with
  | nil => simpa using hwithin
  | cons seg run ih =>
      obtain ⟨hsn, hrest⟩ := h
      rw [List.map_cons, List.cons_append, hsn] at hwithin
      have hbehind := ih hrest hwithin.pop
      rwa [add_one_add_length nxt seg run] at hbehind

end Consecutive

/-- The move loop takes a run of consecutive numbers, as far as the queue has
room, and touches nothing but the receiving half. -/
theorem ikcpMoveLoop_spec (buf : List IKCPSEG) (kcp : IKCPCB)
    (hq : kcp.receiveSide.nque = UInt32.ofNat kcp.rcvQueue.length)
    (hle : kcp.rcvQueue.length ≤ kcp.rcvWnd.toNat) :
    ∃ moved rest, buf = moved ++ rest ∧ Consecutive kcp.rcvNxt moved ∧
      kcp.rcvQueue.length + moved.length ≤ kcp.rcvWnd.toNat ∧
      ikcpMoveLoop buf kcp = { kcp with
        rcvNxt := kcp.rcvNxt + UInt32.ofNat moved.length
        rcvQueue := kcp.rcvQueue ++ moved
        nrcvQue := kcp.nrcvQue + UInt32.ofNat moved.length
        rcvBuf := rest
        nrcvBuf := kcp.nrcvBuf - UInt32.ofNat moved.length } := by
  induction buf generalizing kcp with
  | nil => exact ⟨[], [], rfl, trivial, by simpa using hle, by simp [ikcpMoveLoop]⟩
  | cons seg buf ih =>
      by_cases hc : seg.sn = kcp.rcvNxt ∧ kcp.nrcvQue < kcp.rcvWnd
      · have hn : kcp.nrcvQue = UInt32.ofNat kcp.rcvQueue.length := hq
        have hlt : kcp.rcvQueue.length < kcp.rcvWnd.toNat := by
          have := UInt32.lt_iff_toNat_lt.mp hc.2
          have := kcp.rcvWnd.toNat_lt
          rw [hn, UInt32.toNat_ofNat', Nat.mod_eq_of_lt (by omega)] at *
          omega
        obtain ⟨moved, rest, rfl, hcons, hroom, heq⟩ := ih
          { kcp with
            nrcvBuf := kcp.nrcvBuf - 1
            rcvQueue := kcp.rcvQueue ++ [seg]
            nrcvQue := kcp.nrcvQue + 1
            rcvNxt := kcp.rcvNxt + 1 }
          (by simp [IKCPCB.receiveSide, hn, UInt32.ofNat_add])
          (by simpa using Nat.succ_le_of_lt hlt)
        refine ⟨seg :: moved, rest, rfl, ⟨hc.1, hcons⟩, ?_, ?_⟩
        · simp only [List.length_append, List.length_cons, List.length_nil] at hroom ⊢
          omega
        · have hadd (x : UInt32) := add_one_add_length x seg moved
          have hsub (x : UInt32) := sub_one_sub_length x seg moved
          rw [ikcpMoveLoop, if_pos hc, heq]
          simp only [hadd, hsub, List.append_assoc, List.singleton_append]
      · refine ⟨[], seg :: buf, rfl, trivial, by simpa using hle, ?_⟩
        rw [ikcpMoveLoop, if_neg hc]
        simp

/-- Moving a consecutive run from the front of the buffer keeps the invariant. -/
theorem ReceiveSide.Inv.advance {r : ReceiveSide} (h : r.Inv) {moved rest : List IKCPSEG}
    (hb : r.buf = moved ++ rest) (hc : Consecutive r.nxt moved)
    (hroom : r.queue.length + moved.length ≤ r.wnd.toNat) : (r.advance moved rest).Inv := by
  constructor
  · exact h.wnd_lt
  · simp only [ReceiveSide.advance, h.nque_eq, List.length_append, UInt32.ofNat_add]
  · simpa only [ReceiveSide.advance, List.length_append] using hroom
  · simp only [ReceiveSide.advance, h.nbuf_eq, hb, List.length_append, UInt32.ofNat_add]
    grind
  · have hw := h.within
    rw [hb, List.map_append] at hw
    exact hc.within_behind hw

/-- `ikcpMove` advances the receiving half by a consecutive run and changes nothing else. -/
theorem ikcpMove_spec {kcp : IKCPCB} (h : kcp.receiveSide.Inv) :
    ∃ moved rest, kcp.rcvBuf = moved ++ rest ∧ Consecutive kcp.rcvNxt moved ∧
      kcp.rcvQueue.length + moved.length ≤ kcp.rcvWnd.toNat ∧
      ikcpMove kcp = { kcp with
        rcvNxt := kcp.rcvNxt + UInt32.ofNat moved.length
        rcvQueue := kcp.rcvQueue ++ moved
        nrcvQue := kcp.nrcvQue + UInt32.ofNat moved.length
        rcvBuf := rest
        nrcvBuf := kcp.nrcvBuf - UInt32.ofNat moved.length } :=
  ikcpMoveLoop_spec kcp.rcvBuf kcp h.nque_eq h.nque_le

/-- Moving to the queue keeps the receiving half consistent. -/
theorem ikcpMove_inv {kcp : IKCPCB} (h : kcp.receiveSide.Inv) :
    (ikcpMove kcp).receiveSide.Inv := by
  obtain ⟨moved, rest, hb, hc, hroom, heq⟩ := ikcpMove_spec h
  rw [heq]
  exact h.advance hb hc hroom

@[simp] theorem ikcpMoveLoop_sendSide (buf : List IKCPSEG) (kcp : IKCPCB) :
    (ikcpMoveLoop buf kcp).sendSide = kcp.sendSide := by
  induction buf generalizing kcp with
  | nil => rfl
  | cons seg buf ih =>
      unfold ikcpMoveLoop
      split
      · rw [ih]
        rfl
      · rfl

@[simp] theorem ikcpMove_sendSide (kcp : IKCPCB) : (ikcpMove kcp).sendSide = kcp.sendSide :=
  ikcpMoveLoop_sendSide _ _

/-- The merge loop splits the queue behind the first complete message. -/
theorem ikcpMessage_append (queue : List IKCPSEG) :
    (ikcpMessage queue).1 ++ (ikcpMessage queue).2 = queue := by
  induction queue with
  | nil => rfl
  | cons seg queue ih =>
      unfold ikcpMessage
      split
      · rfl
      · exact congrArg (seg :: ·) ih

/-- Taking a message off the front of the queue keeps the invariant. -/
theorem ReceiveSide.Inv.deliver {r : ReceiveSide} (h : r.Inv) {message behind : List IKCPSEG}
    (hq : r.queue = message ++ behind) :
    ReceiveSide.Inv { r with
      queue := behind, nque := r.nque - UInt32.ofNat message.length } := by
  have hl : r.queue.length = message.length + behind.length := by rw [hq, List.length_append]
  have hle := h.nque_le
  constructor
  · exact h.wnd_lt
  · simp only [h.nque_eq, hl, UInt32.ofNat_add]
    grind
  · change behind.length ≤ r.wnd.toNat
    omega
  · exact h.nbuf_eq
  · exact h.within

/-- So does taking a message off. -/
theorem ikcpDeliver_inv {kcp : IKCPCB} (h : kcp.receiveSide.Inv) :
    (ikcpDeliver kcp).receiveSide.Inv :=
  h.deliver (ikcpMessage_append kcp.rcvQueue).symm

theorem ikcpRecover_receiveSide (kcp : IKCPCB) (recover : Bool) :
    (ikcpRecover kcp recover).receiveSide = kcp.receiveSide := by
  unfold ikcpRecover
  split <;> rfl

theorem ikcpRecover_sendSide (kcp : IKCPCB) (recover : Bool) :
    (ikcpRecover kcp recover).sendSide = kcp.sendSide := by
  unfold ikcpRecover
  split <;> rfl

/-- `ikcp_recv` either refuses, or hands out the first message (without removing
it when peeking) and moves what has become available. -/
theorem ikcpRecv_cases (kcp : IKCPCB) (len : Int32) :
    ((ikcpRecv kcp len).rc < 0 ∧ (ikcpRecv kcp len).bytes = [] ∧ (ikcpRecv kcp len).kcp = kcp) ∨
      ((ikcpRecv kcp len).bytes = payload (ikcpMessage kcp.rcvQueue).1 ∧
        (ikcpRecv kcp len).rc = ikcpIntLen (ikcpRecv kcp len).bytes ∧
        ∃ recover, (ikcpRecv kcp len).kcp =
          ikcpRecover (ikcpMove (if len < 0 then kcp else ikcpDeliver kcp)) recover) := by
  unfold ikcpRecv
  by_cases hq : kcp.rcvQueue = []
  · exact Or.inl (by simp [hq])
  by_cases hp : ikcpPeeksize kcp < 0
  · exact Or.inl (by simp [hq, hp])
  by_cases hr : ikcpPeeksize kcp > (if len < 0 then -len else len).toInt
  · exact Or.inl (by simp [hq, hp, hr])
  · simp only [hq, hp, hr, ite_false]
    exact Or.inr ⟨trivial, trivial, _, rfl⟩

/-- So does reading. -/
theorem ikcpRecv_inv {kcp : IKCPCB} (h : kcp.receiveSide.Inv) (len : Int32) :
    (ikcpRecv kcp len).kcp.receiveSide.Inv := by
  rcases ikcpRecv_cases kcp len with ⟨_, _, heq⟩ | ⟨_, _, recover, heq⟩
  · rwa [heq]
  · rw [heq, ikcpRecover_receiveSide]
    split
    · exact ikcpMove_inv h
    · exact ikcpMove_inv (ikcpDeliver_inv h)

@[simp] theorem ikcpRecv_sendSide (kcp : IKCPCB) (len : Int32) :
    (ikcpRecv kcp len).kcp.sendSide = kcp.sendSide := by
  rcases ikcpRecv_cases kcp len with ⟨_, _, heq⟩ | ⟨_, _, recover, heq⟩
  · rw [heq]
  · rw [heq, ikcpRecover_sendSide, ikcpMove_sendSide]
    split <;> rfl

/-- The backward scan finds the number already stored, or the one place that
separates later numbers from earlier ones. -/
theorem ikcpInsert_cases (newseg : IKCPSEG) (rev : List IKCPSEG) :
    (ikcpInsert newseg rev = none ∧ ∃ seg ∈ rev, seg.sn = newseg.sn) ∨
      ∃ later earlier, rev = later ++ earlier ∧
        ikcpInsert newseg rev = some (later ++ newseg :: earlier) ∧
        (∀ seg ∈ later, seg.sn ≠ newseg.sn ∧ itimediff newseg.sn seg.sn ≤ 0) ∧
        ∀ seg ∈ earlier.head?, itimediff newseg.sn seg.sn > 0 := by
  induction rev with
  | nil => exact Or.inr ⟨[], [], rfl, rfl, by simp, by simp⟩
  | cons seg rev ih =>
      by_cases he : seg.sn = newseg.sn
      · exact Or.inl ⟨by rw [ikcpInsert, if_pos he], seg, List.mem_cons_self, he⟩
      by_cases hd : itimediff newseg.sn seg.sn > 0
      · refine Or.inr ⟨[], seg :: rev, rfl, ?_, by simp, by simpa using hd⟩
        rw [ikcpInsert, if_neg he, if_pos hd, List.nil_append]
      · have hstep : ikcpInsert newseg (seg :: rev) = (ikcpInsert newseg rev).map (seg :: ·) := by
          rw [ikcpInsert, if_neg he, if_neg hd]
        rcases ih with ⟨hnone, s, hs, hsn⟩ | ⟨later, earlier, rfl, hsome, hl, hr⟩
        · exact Or.inl ⟨by rw [hstep, hnone, Option.map_none], s,
            List.mem_cons_of_mem _ hs, hsn⟩
        · refine Or.inr ⟨seg :: later, earlier, rfl, ?_, ?_, hr⟩
          · rw [hstep, hsome, Option.map_some, List.cons_append]
          · intro s hs
            rcases List.mem_cons.mp hs with rfl | hs
            · exact ⟨he, not_lt.mp hd⟩
            · exact hl s hs

/-- Storing a number between the earlier and the later ones keeps the invariant. -/
theorem ReceiveSide.Inv.store {kcp : IKCPCB} (h : kcp.receiveSide.Inv) {newseg : IKCPSEG}
    {before after : List IKCPSEG} (hbuf : kcp.rcvBuf = before ++ after)
    (hin : dist kcp.rcvNxt newseg.sn < kcp.rcvWnd.toNat)
    (hafter : ∀ seg ∈ after, seg.sn ≠ newseg.sn ∧ itimediff newseg.sn seg.sn ≤ 0)
    (hbefore : ∀ seg ∈ before.getLast?, itimediff newseg.sn seg.sn > 0) :
    (ikcpStore kcp (before ++ newseg :: after)).receiveSide.Inv := by
  have hwnd : kcp.rcvWnd.toNat < 2 ^ 31 := h.wnd_lt
  have hw : Within kcp.rcvNxt kcp.rcvWnd.toNat (kcp.rcvBuf.map IKCPSEG.sn) := h.within
  have hdiff : ∀ seg ∈ kcp.rcvBuf, itimediff newseg.sn seg.sn =
      (dist kcp.rcvNxt newseg.sn : Int) - dist kcp.rcvNxt seg.sn := by
    intro seg hseg
    have := hw.bounded _ (List.mem_map_of_mem hseg)
    exact diff_eq_sub (by omega) (by omega)
  constructor
  · exact h.wnd_lt
  · exact h.nque_eq
  · exact h.nque_le
  · have hn : kcp.nrcvBuf = UInt32.ofNat kcp.rcvBuf.length := h.nbuf_eq
    change kcp.nrcvBuf + 1 = UInt32.ofNat (before ++ newseg :: after).length
    rw [hn, hbuf, List.length_append, List.length_append, List.length_cons, ← Nat.add_assoc,
      UInt32.ofNat_add (_ + _)]
    rfl
  · change Within kcp.rcvNxt kcp.rcvWnd.toNat ((before ++ newseg :: after).map IKCPSEG.sn)
    rw [List.map_append, List.map_cons]
    rw [hbuf, List.map_append] at hw
    refine hw.insert hin ?_ ?_
    · -- the last of the earlier numbers is below the new one, and the others are below it
      rcases List.eq_nil_or_concat before with rfl | ⟨init, last, rfl⟩
      · simp
      have hlast : dist kcp.rcvNxt last.sn < dist kcp.rcvNxt newseg.sn := by
        have hd := hdiff last (by simp [hbuf])
        have hpos := hbefore last (by simp)
        omega
      rw [List.concat_eq_append, List.map_append] at hw ⊢
      intro x hx
      rcases List.mem_append.mp hx with hx | hx
      · have hasc := (List.pairwise_append.mp (List.pairwise_append.mp hw.ascending).1).2.2
        exact (hasc x hx last.sn (by simp)).trans hlast
      · rw [List.map_singleton, List.mem_singleton] at hx
        rwa [hx]
    · intro x hx
      obtain ⟨seg, hseg, rfl⟩ := List.mem_map.mp hx
      obtain ⟨hne, hle⟩ := hafter seg hseg
      have hd := hdiff seg (hbuf ▸ List.mem_append_right _ hseg)
      have hdne : dist kcp.rcvNxt seg.sn ≠ dist kcp.rcvNxt newseg.sn := fun he =>
        hne (dist_inj.mp he)
      omega

/-- A segment inside the window is stored once, at the place its number gives
it; everything else leaves the buffer as it is. -/
theorem ikcpParseData_cases {kcp : IKCPCB} (h : kcp.receiveSide.Inv) (newseg : IKCPSEG) :
    (¬ dist kcp.rcvNxt newseg.sn < kcp.rcvWnd.toNat ∧ ikcpParseData kcp newseg = kcp) ∨
      dist kcp.rcvNxt newseg.sn < kcp.rcvWnd.toNat ∧
        (((∃ seg ∈ kcp.rcvBuf, seg.sn = newseg.sn) ∧
            ikcpParseData kcp newseg = ikcpMove kcp) ∨
          ∃ before after, kcp.rcvBuf = before ++ after ∧
            (ikcpStore kcp (before ++ newseg :: after)).receiveSide.Inv ∧
            ikcpParseData kcp newseg = ikcpMove (ikcpStore kcp (before ++ newseg :: after))) := by
  have hwnd : kcp.rcvWnd.toNat < 2 ^ 31 := h.wnd_lt
  have hiff := window_iff (b := kcp.rcvNxt) (x := newseg.sn) hwnd
  unfold ikcpParseData
  by_cases hin : dist kcp.rcvNxt newseg.sn < kcp.rcvWnd.toNat
  · obtain ⟨hhi, hlo⟩ := hiff.mpr hin
    refine Or.inr ⟨hin, ?_⟩
    rw [if_neg (not_or.mpr ⟨not_le.mpr hhi, not_lt.mpr hlo⟩)]
    rcases ikcpInsert_cases newseg kcp.rcvBuf.reverse with
      ⟨hnone, seg, hseg, hsn⟩ | ⟨later, earlier, hrev, hsome, hl, hr⟩
    · exact Or.inl ⟨⟨seg, List.mem_reverse.mp hseg, hsn⟩, by rw [hnone]⟩
    · have hbuf : kcp.rcvBuf = earlier.reverse ++ later.reverse := by
        rw [← List.reverse_append, ← hrev, List.reverse_reverse]
      have hstored : (later ++ newseg :: earlier).reverse =
          earlier.reverse ++ newseg :: later.reverse := by
        rw [List.reverse_append, List.reverse_cons, List.append_assoc, List.singleton_append]
      refine Or.inr ⟨earlier.reverse, later.reverse, hbuf, ?_, by simp only [hsome, hstored]⟩
      exact h.store hbuf hin
        (fun seg hseg => hl seg (List.mem_reverse.mp hseg))
        (fun seg hseg => hr seg (by rwa [List.getLast?_reverse] at hseg))
  · refine Or.inl ⟨hin, ?_⟩
    rw [if_pos]
    by_contra hno
    obtain ⟨hhi, hlo⟩ := not_or.mp hno
    exact hin (hiff.mp ⟨not_le.mp hhi, not_lt.mp hlo⟩)

end CodeBlocks.Kcp
