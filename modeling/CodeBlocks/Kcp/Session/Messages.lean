import CodeBlocks.Kcp.Invariant.Intake
import CodeBlocks.Kcp.Session.Reads

/-!
# The messages of a stream

The queue and the run of segments that follow it in the buffer are one stream,
of which the queue holds as much as the receive window. The receive loop takes
one message after another off its front.
-/

namespace CodeBlocks.Kcp

open Serial

/-- The first message of a queue has all its segments. -/
def Complete : List IKCPSEG → Prop
  | [] => False
  | seg :: rest => seg.frg = 0 ∨ ¬ UInt32.ofNat (seg :: rest).length < seg.frg + 1

instance (queue : List IKCPSEG) : Decidable (Complete queue) := by
  unfold Complete
  cases queue <;> infer_instance

/-- A message can be read exactly when it is complete and its length is an `int`. -/
theorem ikcpPeeksize_nonneg_iff {kcp : IKCPCB} (h : kcp.receiveSide.Inv) :
    ¬ ikcpPeeksize kcp < 0 ↔
      Complete kcp.rcvQueue ∧ 0 ≤ ikcpIntLen (payload (ikcpMessage kcp.rcvQueue).1) := by
  have hnque : kcp.nrcvQue = UInt32.ofNat kcp.rcvQueue.length := h.nque_eq
  unfold ikcpPeeksize
  rw [hnque]
  cases hcase : kcp.rcvQueue with
  | nil =>
      exact ⟨fun hneg => absurd (Int.negSucc_lt_zero 0) hneg, fun hcomplete => hcomplete.1.elim⟩
  | cons seg rest =>
      simp only [Complete]
      by_cases hfrg : seg.frg = 0
      · rw [if_pos hfrg, toInt32_len, ikcpMessage, if_pos hfrg]
        simp [payload, hfrg]
      · by_cases hshort : UInt32.ofNat (seg :: rest).length < seg.frg + 1
        · rw [if_neg hfrg, if_pos hshort]
          exact ⟨fun hneg => absurd (Int.negSucc_lt_zero 0) hneg,
            fun hcomplete => (hcomplete.1.elim hfrg (absurd hshort)).elim⟩
        · rw [if_neg hfrg, if_neg hshort, not_lt]
          exact ⟨fun hlen => ⟨Or.inr hshort, hlen⟩, fun hcomplete => hcomplete.2⟩

/-- Nothing can be read when the first message is not complete. -/
theorem ikcpPeeksize_of_not_complete {kcp : IKCPCB} (h : kcp.receiveSide.Inv)
    (hqueue : ¬ Complete kcp.rcvQueue) : ikcpPeeksize kcp < 0 := by
  by_contra hpeek
  exact hqueue ((ikcpPeeksize_nonneg_iff h).mp hpeek).1

/-- The segments of the numbers from `nxt` on that stand at the front of a buffer. -/
def runFrom : UInt32 → List IKCPSEG → List IKCPSEG
  | _, [] => []
  | nxt, seg :: rest => if seg.sn = nxt then seg :: runFrom (nxt + 1) rest else []

/-- A consecutive run in front is the beginning of the run. -/
theorem runFrom_append {nxt : UInt32} {run : List IKCPSEG} (h : Consecutive nxt run)
    (rest : List IKCPSEG) :
    runFrom nxt (run ++ rest) = run ++ runFrom (nxt + UInt32.ofNat run.length) rest := by
  induction run generalizing nxt with
  | nil => simp
  | cons seg run ih =>
      rw [List.cons_append, runFrom, if_pos h.1, ih h.2, add_one_add_length]
      rfl

/-- Without the segment that is next there is no run. -/
theorem runFrom_of_ne {nxt : UInt32} {buf : List IKCPSEG} (h : ∀ seg ∈ buf, seg.sn ≠ nxt) :
    runFrom nxt buf = [] := by
  cases buf with
  | nil => rfl
  | cons seg rest => rw [runFrom, if_neg (h seg List.mem_cons_self)]

/-- What stands before the first gap of a buffer. -/
theorem runFrom_split (nxt : UInt32) (buf : List IKCPSEG) :
    ∃ rest, buf = runFrom nxt buf ++ rest ∧ Consecutive nxt (runFrom nxt buf) ∧
      ∀ seg ∈ rest.head?, seg.sn ≠ nxt + UInt32.ofNat (runFrom nxt buf).length := by
  induction buf generalizing nxt with
  | nil => exact ⟨[], rfl, trivial, by simp⟩
  | cons seg buf ih =>
      by_cases hsn : seg.sn = nxt
      · obtain ⟨rest, hbuf, hconsecutive, hfirst⟩ := ih (nxt + 1)
        rw [runFrom, if_pos hsn]
        refine ⟨rest, congrArg (seg :: ·) hbuf, ⟨hsn, hconsecutive⟩, ?_⟩
        rwa [add_one_add_length] at hfirst
      · rw [runFrom, if_neg hsn]
        refine ⟨seg :: buf, rfl, trivial, ?_⟩
        simpa using hsn

/-- The segments in the order in which they are read, as far as none is missing. -/
def ReceiveSide.inOrder (r : ReceiveSide) : List IKCPSEG := r.queue ++ runFrom r.nxt r.buf

/-- The queue holds as many of them as the window is large. -/
theorem ReceiveSide.take_inOrder {r : ReceiveSide} (h : r.Inv) (hmoved : r.Moved) :
    r.inOrder.take r.wnd.toNat = r.queue := by
  rcases hmoved with hfull | hmissing
  · exact List.take_left' hfull
  · rw [inOrder, runFrom_of_ne hmissing, List.append_nil]
    exact List.take_of_length_le h.nque_le

/-- Moving segments to the queue leaves their order as it is. -/
theorem ikcpMove_inOrder {kcp : IKCPCB} (h : kcp.receiveSide.Inv) :
    (ikcpMove kcp).receiveSide.inOrder = kcp.receiveSide.inOrder := by
  obtain ⟨moved, hpasses, hbuf⟩ := ikcpMove_passes h
  have hbuf' : kcp.receiveSide.buf = moved ++ (ikcpMove kcp).receiveSide.buf := hbuf
  rw [ReceiveSide.inOrder, ReceiveSide.inOrder, hpasses.queue_eq, hpasses.nxt_eq, hbuf',
    runFrom_append hpasses.consecutive, List.append_assoc]

/-- Reading takes the first message off. -/
theorem ikcpRecv_inOrder {kcp : IKCPCB} (h : kcp.receiveSide.Inv)
    (hpeek : ¬ ikcpPeeksize kcp < 0) :
    (ikcpMessage kcp.rcvQueue).1 ++
        (ikcpRecv kcp (Int32.ofInt (ikcpPeeksize kcp))).kcp.receiveSide.inOrder =
      kcp.receiveSide.inOrder := by
  rw [ikcpRecv_kcp hpeek, ikcpMove_inOrder (ikcpDeliver_inv h)]
  change _ ++ ((ikcpMessage kcp.rcvQueue).2 ++ _) = kcp.rcvQueue ++ _
  rw [← List.append_assoc, ikcpMessage_append]
  rfl

/-- The message at the front of some segments can be read through a window. -/
structure Front (wnd : Nat) (segs message : List IKCPSEG) : Prop where
  complete : Complete (segs.take wnd)
  message_eq : message = (ikcpMessage (segs.take wnd)).1
  nonneg : 0 ≤ ikcpIntLen (payload message)

/-- The message can be read, after those before it. -/
inductive Readable (wnd : Nat) : List IKCPSEG → List IKCPSEG → Prop
  | front {segs message : List IKCPSEG} (h : Front wnd segs message) : Readable wnd segs message
  | behind {segs message next : List IKCPSEG} (h : Front wnd segs message)
      (hnext : Readable wnd (segs.drop message.length) next) : Readable wnd segs next

/-- The front message is what can be read from the queue. -/
theorem front_iff {kcp : IKCPCB} (h : kcp.receiveSide.Inv) (hmoved : kcp.receiveSide.Moved)
    (message : List IKCPSEG) :
    Front kcp.rcvWnd.toNat kcp.receiveSide.inOrder message ↔
      ¬ ikcpPeeksize kcp < 0 ∧ message = (ikcpMessage kcp.rcvQueue).1 := by
  have hqueue : kcp.receiveSide.inOrder.take kcp.rcvWnd.toNat = kcp.rcvQueue :=
    ReceiveSide.take_inOrder h hmoved
  rw [ikcpPeeksize_nonneg_iff h]
  constructor
  · rintro ⟨hcomplete, rfl, hlen⟩
    rw [hqueue] at hcomplete hlen ⊢
    exact ⟨⟨hcomplete, hlen⟩, rfl⟩
  · rintro ⟨⟨hcomplete, hlen⟩, rfl⟩
    exact ⟨hqueue.symm ▸ hcomplete, by rw [hqueue], hlen⟩

/-- Where the receive loop stops, no message of the stream can be read. -/
theorem not_readable {kcp : IKCPCB} (h : kcp.receiveSide.Inv) (hmoved : kcp.receiveSide.Moved)
    (hpeek : ikcpPeeksize kcp < 0) (message : List IKCPSEG) :
    ¬ Readable kcp.rcvWnd.toNat kcp.receiveSide.inOrder message := by
  intro hreadable
  cases hreadable with
  | front hmessage => exact ((front_iff h hmoved _).mp hmessage).1 hpeek
  | behind hmessage _ => exact ((front_iff h hmoved _).mp hmessage).1 hpeek

/-- The messages that the receive loop reads are those that can be read. -/
theorem mem_ikcpReadSizes_iff {kcp : IKCPCB} (h : kcp.receiveSide.Inv)
    (hmoved : kcp.receiveSide.Moved) {fuel : Nat} (hfuel : kcp.unread ≤ fuel) (size : Int) :
    size ∈ ikcpReadSizes fuel kcp ↔
      ∃ message, Readable kcp.rcvWnd.toNat kcp.receiveSide.inOrder message ∧
        ikcpIntLen (payload message) = size := by
  induction fuel generalizing kcp with
  | zero =>
      have hpeek : ikcpPeeksize kcp < 0 := by
        by_contra hpeek
        have hlt := ikcpRecv_unread_lt hpeek
        omega
      refine ⟨fun hmem => absurd hmem List.not_mem_nil, ?_⟩
      rintro ⟨message, hreadable, -⟩
      exact absurd hreadable (not_readable h hmoved hpeek message)
  | succ fuel ih =>
      unfold ikcpReadSizes
      by_cases hpeek : ikcpPeeksize kcp < 0
      · rw [if_pos hpeek]
        refine ⟨fun hmem => absurd hmem List.not_mem_nil, ?_⟩
        rintro ⟨message, hreadable, -⟩
        exact absurd hreadable (not_readable h hmoved hpeek message)
      have hlt := ikcpRecv_unread_lt hpeek
      have horder := ikcpRecv_inOrder h hpeek
      have hrest := ih (ikcpRecv_inv h (Int32.ofInt (ikcpPeeksize kcp)))
        (ikcpRecv_moved h hmoved _) (by omega)
      have hwnd : (ikcpRecv kcp (Int32.ofInt (ikcpPeeksize kcp))).kcp.rcvWnd = kcp.rcvWnd :=
        congrArg Config.rcvWnd (ikcpRecv_config kcp _)
      have hfront : Front kcp.rcvWnd.toNat kcp.receiveSide.inOrder (ikcpMessage kcp.rcvQueue).1 :=
        (front_iff h hmoved _).mpr ⟨hpeek, rfl⟩
      rw [if_neg hpeek, List.mem_cons, hrest, hwnd]
      generalize (ikcpRecv kcp (Int32.ofInt (ikcpPeeksize kcp))).kcp = next at horder
      have hdrop : kcp.receiveSide.inOrder.drop (ikcpMessage kcp.rcvQueue).1.length =
          next.receiveSide.inOrder := by
        rw [← horder, List.drop_left]
      rw [ikcpPeeksize_eq hpeek]
      constructor
      · rintro (rfl | ⟨message, hreadable, hlen⟩)
        · exact ⟨_, .front hfront, rfl⟩
        · exact ⟨message, .behind hfront (hdrop ▸ hreadable), hlen⟩
      · rintro ⟨message, hreadable, hlen⟩
        cases hreadable with
        | front hmessage =>
            rw [((front_iff h hmoved _).mp hmessage).2] at hlen
            exact Or.inl hlen.symm
        | behind hmessage hnext =>
            rw [((front_iff h hmoved _).mp hmessage).2, hdrop] at hnext
            exact Or.inr ⟨message, hnext, hlen⟩

/-! ## After a datagram -/

/-- The segments that a receiver has in order behind its queue, after those of a datagram: they
carry the numbers waited for, and the next one is missing. -/
structure IKCPCB.Follows (kcp : IKCPCB) (segs run : List IKCPSEG) : Prop where
  consecutive : Consecutive kcp.rcvNxt run
  kept : ∀ seg ∈ run, kcp.Keeps segs seg
  ends : ∀ seg, kcp.Keeps segs seg → seg.sn ≠ kcp.rcvNxt + UInt32.ofNat run.length

/-- Where the receiver has one segment of each number, there is one such run. -/
theorem IKCPCB.Follows.unique {kcp : IKCPCB} {segs run run' : List IKCPSEG}
    (hone : ∀ x y, kcp.Keeps segs x → kcp.Keeps segs y → x.sn = y.sn → x = y)
    (h : kcp.Follows segs run) (h' : kcp.Follows segs run') : run = run' := by
  have hends {a b : List IKCPSEG} (ha : kcp.Follows segs a) (hb : kcp.Follows segs b) :
      a.length ≤ b.length := by
    by_contra hlt
    obtain ⟨seg, hseg, hsn⟩ := ha.consecutive.exists_sn (not_le.mp hlt)
    exact hb.ends seg (ha.kept seg hseg) hsn
  apply List.ext_getElem (le_antisymm (hends h h') (hends h' h))
  intro k hk hk'
  refine hone _ _ (h.kept _ (List.getElem_mem hk)) (h'.kept _ (List.getElem_mem hk')) ?_
  rw [h.consecutive.sn_eq (List.getElem?_eq_getElem hk),
    h'.consecutive.sn_eq (List.getElem?_eq_getElem hk')]

namespace Intake

variable {kcp : IKCPCB} {segs : List IKCPSEG} {r : ReceiveSide} {moved : List IKCPSEG}

/-- The buffer stands behind the run. -/
theorem le_dist (h : Intake kcp segs r moved) {seg : IKCPSEG} (hseg : seg ∈ r.buf) :
    dist kcp.rcvNxt seg.sn = moved.length + dist r.nxt seg.sn := by
  have hle := h.length_le
  have hwnd := h.wnd_lt
  have hnxt := h.dist_nxt
  have hin := h.inv.within.bounded seg.sn (List.mem_map_of_mem hseg)
  rw [h.passes.wnd_eq] at hin
  change dist r.nxt seg.sn < kcp.rcvWnd.toNat at hin
  rw [Serial.dist_trans (b := kcp.rcvNxt) (c := r.nxt) (by omega), hnxt]

/-- The receiver has one segment of each number. -/
theorem eq_of_sn_eq (h : Intake kcp segs r moved) {x y : IKCPSEG} (hx : kcp.Keeps segs x)
    (hy : kcp.Keeps segs y) (hsn : x.sn = y.sn) : x = y := by
  have hle := h.length_le
  have hwnd := h.wnd_lt
  have hapart {a b : IKCPSEG} (ha : a ∈ moved) (hb : b ∈ r.buf) : a.sn ≠ b.sn := by
    intro heq
    have hlt := h.dist_lt ha
    have hge := h.le_dist hb
    rw [heq] at hlt
    omega
  rcases List.mem_append.mp ((h.kept x).mpr hx) with hx | hx
  · rcases List.mem_append.mp ((h.kept y).mpr hy) with hy | hy
    · obtain ⟨i, hi⟩ := List.getElem?_of_mem hx
      obtain ⟨j, hj⟩ := List.getElem?_of_mem hy
      have hi' := (List.getElem?_eq_some_iff.mp hi).1
      have hj' := (List.getElem?_eq_some_iff.mp hj).1
      have hdist := congrArg (dist kcp.rcvNxt) hsn
      rw [h.passes.consecutive.sn_eq hi, h.passes.consecutive.sn_eq hj] at hdist
      change dist kcp.rcvNxt (kcp.rcvNxt + _) = dist kcp.rcvNxt (kcp.rcvNxt + _) at hdist
      rw [Serial.dist_add, Serial.dist_add, UInt32.toNat_ofNat', UInt32.toNat_ofNat',
        Nat.mod_eq_of_lt (by omega), Nat.mod_eq_of_lt (by omega)] at hdist
      rw [hdist, hj] at hi
      exact (Option.some.inj hi).symm
    · exact absurd hsn (hapart hx hy)
  · rcases List.mem_append.mp ((h.kept y).mpr hy) with hy | hy
    · exact absurd hsn.symm (hapart hy hx)
    · have hnodup : (r.buf.map IKCPSEG.sn).Nodup := by
        refine h.inv.within.ascending.imp fun hlt heq => ?_
        rw [heq] at hlt
        exact lt_irrefl _ hlt
      exact List.inj_on_of_nodup_map hnodup hx hy hsn

/-- What has been passed over and what stands first in the buffer follow the queue. -/
theorem follows (h : Intake kcp segs r moved) :
    kcp.Follows segs (moved ++ runFrom r.nxt r.buf) := by
  have hnxt : r.nxt = kcp.rcvNxt + UInt32.ofNat moved.length := h.passes.nxt_eq
  obtain ⟨rest, hbuf, hconsecutive, hfirst⟩ := runFrom_split r.nxt r.buf
  have hrun : Consecutive kcp.rcvNxt (moved ++ runFrom r.nxt r.buf) :=
    h.passes.consecutive.append (hnxt ▸ hconsecutive)
  refine ⟨hrun, fun seg hseg => (h.kept seg).mp ?_, ?_⟩
  · rw [hbuf, ← List.append_assoc]
    exact List.mem_append_left _ hseg
  · intro seg hseg hsn
    have hwithin : Within r.nxt r.wnd.toNat (r.buf.map IKCPSEG.sn) := h.inv.within
    rw [hbuf, List.map_append] at hwithin
    have hbehind := hconsecutive.within_behind hwithin
    have hle := h.length_le
    have hwnd := h.wnd_lt
    have hshort := h.inv.within.length_le
    rw [List.length_map, hbuf, List.length_append, h.passes.wnd_eq] at hshort
    change (runFrom r.nxt r.buf).length + rest.length ≤ kcp.rcvWnd.toNat at hshort
    have hmem := (h.kept seg).mpr hseg
    rw [hbuf, ← List.append_assoc, List.mem_append] at hmem
    rcases hmem with hmem | hmem
    · have hlen : (moved ++ runFrom r.nxt r.buf).length < 2 ^ 32 := by
        rw [List.length_append]
        omega
      have hlt := hrun.dist_lt hlen.le hmem
      rw [hsn, Serial.dist_add, UInt32.toNat_ofNat', Nat.mod_eq_of_lt hlen] at hlt
      exact lt_irrefl _ hlt
    · rw [List.length_append, UInt32.ofNat_add, ← UInt32.add_assoc, ← hnxt] at hsn
      cases rest with
      | nil => cases hmem
      | cons first rest =>
          exact hbehind.ne_base (hfirst first rfl) seg.sn (List.mem_map_of_mem hmem) hsn

/-- The queue with the run behind it is what the receiver has in order. -/
theorem inOrder_eq (h : Intake kcp segs r moved) {run : List IKCPSEG}
    (hrun : kcp.Follows segs run) : kcp.rcvQueue ++ run = r.inOrder := by
  rw [hrun.unique (fun x y => h.eq_of_sn_eq) h.follows, ReceiveSide.inOrder, h.passes.queue_eq,
    List.append_assoc]
  rfl

end Intake

end CodeBlocks.Kcp
