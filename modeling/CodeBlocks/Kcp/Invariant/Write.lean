import CodeBlocks.Kcp.Invariant.Sides

/-!
# Fragmentation keeps the send queue in order

`ikcp_write` in both modes: the payload of the queue grows by exactly the bytes
written, no segment exceeds the segment size, and the queue ends with a segment
that closes a message.
-/

namespace CodeBlocks.Kcp

/-- Payloads stand in the order of their segments. -/
theorem payload_append (xs ys : List IKCPSEG) : payload (xs ++ ys) = payload xs ++ payload ys :=
  List.flatMap_append

/-- A write makes as many fragments as it is told to. -/
@[simp] theorem length_ikcpFragment (mss : Nat) (streamMode : Bool) (count : Nat)
    (buffer : List UInt8) : (ikcpFragment mss streamMode count buffer).length = count := by
  induction count generalizing buffer with
  | zero => rfl
  | succ count ih => rw [ikcpFragment, List.length_cons, ih]

/-- At least one fragment is made. -/
theorem ikcpFragment_ne_nil (mss : Nat) (streamMode : Bool) {count : Nat} (buffer : List UInt8)
    (h : 0 < count) : ikcpFragment mss streamMode count buffer ≠ [] := by
  rw [← List.length_pos_iff, length_ikcpFragment]
  exact h

/-- Enough fragments carry all bytes. -/
theorem payload_ikcpFragment (mss : Nat) (streamMode : Bool) (count : Nat) (buffer : List UInt8)
    (h : buffer.length ≤ count * mss) :
    payload (ikcpFragment mss streamMode count buffer) = buffer := by
  induction count generalizing buffer with
  | zero =>
      have hnil : buffer = [] := List.length_eq_zero_iff.mp (by simpa using h)
      rw [hnil]
      rfl
  | succ count ih =>
      have hrest : (buffer.drop (if buffer.length > mss then mss else buffer.length)).length ≤
          count * mss := by
        rw [List.length_drop]
        rw [Nat.succ_mul] at h
        split <;> omega
      have htail := ih _ hrest
      rw [payload] at htail ⊢
      rw [ikcpFragment, List.flatMap_cons, htail, List.take_append_drop]

/-- No fragment is longer than the `mss`. -/
theorem ikcpFragment_data_le (mss : Nat) (streamMode : Bool) (count : Nat)
    (buffer : List UInt8) :
    ∀ seg ∈ ikcpFragment mss streamMode count buffer, seg.data.length ≤ mss := by
  induction count generalizing buffer with
  | zero => simp [ikcpFragment]
  | succ count ih =>
      intro seg hseg
      unfold ikcpFragment at hseg
      rcases List.mem_cons.mp hseg with rfl | hseg
      · rw [List.length_take]
        split <;> omega
      · exact ih _ seg hseg

/-- Fragment numbers count down to zero, or are all zero in stream mode. -/
theorem ikcpFragment_frg_lt (mss : Nat) (streamMode : Bool) (count : Nat) (buffer : List UInt8)
    {bound : Nat} (hpos : 0 < bound) (h : streamMode = false → count ≤ bound) :
    ∀ seg ∈ ikcpFragment mss streamMode count buffer, seg.frg.toNat < bound := by
  induction count generalizing buffer with
  | zero => simp [ikcpFragment]
  | succ count ih =>
      intro seg hseg
      unfold ikcpFragment at hseg
      rcases List.mem_cons.mp hseg with rfl | hseg
      · cases streamMode with
        | true => simpa using hpos
        | false =>
            have hle := h rfl
            have hmod := Nat.mod_le count (2 ^ 32)
            simp only [Bool.false_eq_true, ite_false, UInt32.toNat_ofNat']
            omega
      · exact ih _ (fun hs => by have := h hs; omega) seg hseg

/-- The last fragment closes the message. -/
theorem ikcpFragment_last (mss : Nat) (streamMode : Bool) (count : Nat) (buffer : List UInt8) :
    ∀ seg, (ikcpFragment mss streamMode count buffer).getLast? = some seg → seg.frg = 0 := by
  induction count generalizing buffer with
  | zero => simp [ikcpFragment]
  | succ count ih =>
      intro seg hseg
      rw [ikcpFragment] at hseg
      cases count with
      | zero =>
          rw [ikcpFragment, List.getLast?_singleton, Option.some.injEq] at hseg
          rw [← hseg]
          cases streamMode <;> rfl
      | succ count =>
          apply ih (buffer.drop (if buffer.length > mss then mss else buffer.length)) seg
          rw [ikcpFragment] at hseg ⊢
          rwa [List.getLast?_cons_cons] at hseg

/-- Also a write of nothing takes one fragment. -/
theorem ikcpFragmentCount_pos {mss : Nat} (hm : 0 < mss) (len : Nat) :
    0 < ikcpFragmentCount mss len := by
  unfold ikcpFragmentCount
  split
  · omega
  · exact Nat.div_pos (by omega) hm

/-- The fragments have room for all bytes. -/
theorem le_ikcpFragmentCount_mul {mss len : Nat} (hm : 0 < mss) :
    len ≤ ikcpFragmentCount mss len * mss := by
  unfold ikcpFragmentCount
  split
  · omega
  · have := Nat.div_add_mod (len + mss - 1) mss
    have := Nat.mod_lt (len + mss - 1) hm
    rw [Nat.mul_comm]
    omega

/-- Filling up the last segment moves bytes from the buffer to the queue. -/
theorem ikcpExtendTail_spec (mss : Nat) (queue : List IKCPSEG) (buffer : List UInt8) :
    (ikcpExtendTail mss queue buffer = (queue, buffer)) ∨
      ∃ init old extend, queue = init ++ [old] ∧ old.data.length + extend ≤ mss ∧
        ikcpExtendTail mss queue buffer =
          (init ++ [{ frg := 0, data := old.data ++ buffer.take extend }],
            buffer.drop extend) := by
  rcases List.eq_nil_or_concat queue with rfl | ⟨init, old, rfl⟩
  · exact Or.inl rfl
  rw [List.concat_eq_append, ikcpExtendTail, List.getLast?_concat]
  by_cases hlt : old.data.length < mss
  · refine Or.inr ⟨init, old, if buffer.length < mss - old.data.length then buffer.length
      else mss - old.data.length, rfl, ?_, ?_⟩
    · split <;> omega
    · simp only [hlt, ite_true, List.dropLast_concat]
  · exact Or.inl (by simp only [hlt, ite_false])

/-- What `ikcp_write` did when it returned zero: the queue after tail merging,
and the fragments appended to it. -/
structure Written (kcp : IKCPCB) (data : List UInt8) (queue added : List IKCPSEG) : Prop where
  length_eq : queue.length = kcp.sndQueue.length
  payload_eq : payload (queue ++ added) = payload kcp.sndQueue ++ data
  data_le : ∀ seg ∈ queue, seg ∈ kcp.sndQueue ∨ seg.data.length ≤ kcp.mss.toNat ∧ seg.frg = 0
  added_data_le : ∀ seg ∈ added, seg.data.length ≤ kcp.mss.toNat
  added_frg_lt : ∀ seg ∈ added, seg.frg.toNat < 128
  last_frg : (∀ seg, kcp.sndQueue.getLast? = some seg → seg.frg = 0) →
    ∀ seg, (queue ++ added).getLast? = some seg → seg.frg = 0

/-- A length below `2 ^ 31` is what the C `int` holds. -/
theorem ikcpIntLen_eq {data : List UInt8} (h : data.length < 2 ^ 31) :
    ikcpIntLen data = data.length := by
  rw [ikcpIntLen, Int32.toInt_ofNat_of_lt h]

/-- The queue that fragments are appended to: the old one, or one whose last
segment has been filled up with the first bytes of the data. -/
structure Merged (kcp : IKCPCB) (data : List UInt8) (queue : List IKCPSEG)
    (buffer : List UInt8) : Prop where
  length_eq : queue.length = kcp.sndQueue.length
  payload_eq : payload queue ++ buffer = payload kcp.sndQueue ++ data
  data_le : ∀ seg ∈ queue, seg ∈ kcp.sndQueue ∨ seg.data.length ≤ kcp.mss.toNat ∧ seg.frg = 0
  last_frg : (∀ seg, kcp.sndQueue.getLast? = some seg → seg.frg = 0) →
    ∀ seg, queue.getLast? = some seg → seg.frg = 0

/-- Nothing is merged when the queue is left as it is. -/
theorem Merged.refl (kcp : IKCPCB) (data : List UInt8) : Merged kcp data kcp.sndQueue data where
  length_eq := rfl
  payload_eq := rfl
  data_le _ hseg := Or.inl hseg
  last_frg h := h

/-- In stream mode the tail of the queue takes as many bytes as it has room for. -/
theorem ikcpExtendTail_merged (kcp : IKCPCB) (data : List UInt8) :
    Merged kcp data (ikcpExtendTail kcp.mss.toNat kcp.sndQueue data).1
      (ikcpExtendTail kcp.mss.toNat kcp.sndQueue data).2 := by
  rcases ikcpExtendTail_spec kcp.mss.toNat kcp.sndQueue data with
    heq | ⟨init, old, extend, hq, hle, heq⟩
  · rw [heq]
    exact Merged.refl kcp data
  · rw [heq]
    constructor
    · simp [hq]
    · simp [hq, payload, List.take_append_drop]
    · intro seg hseg
      rcases List.mem_append.mp hseg with hseg | hseg
      · exact Or.inl (hq ▸ List.mem_append_left _ hseg)
      · rw [List.mem_singleton.mp hseg]
        refine Or.inr ⟨?_, rfl⟩
        rw [List.length_append, List.length_take]
        omega
    · intro _ seg hseg
      rw [List.getLast?_concat, Option.some.injEq] at hseg
      rw [← hseg]

/-- Where the tail has taken everything, no fragment is added. -/
theorem Merged.nothing_left {kcp : IKCPCB} {data : List UInt8} {queue : List IKCPSEG}
    (h : Merged kcp data queue []) : Written kcp data queue [] where
  length_eq := h.length_eq
  payload_eq := by simpa using h.payload_eq
  data_le := h.data_le
  added_data_le := by simp
  added_frg_lt := by simp
  last_frg := by simpa using h.last_frg

/-- What the tail has not taken goes into fragments behind it. -/
theorem Merged.fragments {kcp : IKCPCB} (hm : 0 < kcp.mss.toNat) {data buffer : List UInt8}
    {queue : List IKCPSEG} (h : Merged kcp data queue buffer) (streamMode : Bool)
    (hc : streamMode = false → ikcpFragmentCount kcp.mss.toNat buffer.length < 128) :
    Written kcp data queue (ikcpFragment kcp.mss.toNat streamMode
      (ikcpFragmentCount kcp.mss.toNat buffer.length) buffer) where
  length_eq := h.length_eq
  payload_eq := by
    rw [payload_append, payload_ikcpFragment _ _ _ _ (le_ikcpFragmentCount_mul hm),
      h.payload_eq]
  data_le := h.data_le
  added_data_le := ikcpFragment_data_le _ _ _ _
  added_frg_lt := ikcpFragment_frg_lt _ _ _ _ (by decide) fun hs => (hc hs).le
  last_frg _ seg hseg := by
    have hne := ikcpFragment_ne_nil kcp.mss.toNat streamMode buffer
      (ikcpFragmentCount_pos hm buffer.length)
    rw [List.getLast?_append_of_ne_nil _ hne] at hseg
    exact ikcpFragment_last _ _ _ _ seg hseg

/-- `ikcp_write` refuses and changes nothing, or appends exactly the bytes that
its length argument admits. -/
theorem ikcpWrite_cases {kcp : IKCPCB} (hm : 0 < kcp.mss.toNat) (data : List UInt8)
    (alwaysStream : Bool) :
    ((ikcpWrite kcp data alwaysStream).1 < 0 ∧ (ikcpWrite kcp data alwaysStream).2 = kcp ∧
        (alwaysStream = true → ikcpIntLen data < 0)) ∨
      ∃ queue added, Written kcp (data.take (ikcpIntLen data).toNat) queue added ∧
        ikcpWrite kcp data alwaysStream = (0, kcp.setSndQueue (queue ++ added)
          (kcp.nsndQue + UInt32.ofNat added.length)) := by
  by_cases hneg : ikcpIntLen data < 0
  · rw [ikcpWrite, if_pos hneg]
    exact Or.inl ⟨by simp, rfl, fun _ => hneg⟩
  rw [ikcpWrite, if_neg hneg]
  generalize hs : (decide (kcp.stream ≠ 0) || alwaysStream) = streamMode
  generalize data.take (ikcpIntLen data).toNat = buffer
  cases streamMode with
  | false =>
      simp only [Bool.false_eq_true, ite_false, false_and, Bool.not_false, true_and]
      by_cases hc : ikcpFragmentCount kcp.mss.toNat buffer.length ≥ ikcpWndRcv.toNat
      · rw [if_pos hc]
        refine Or.inl ⟨by simp, rfl, ?_⟩
        rintro rfl
        simp at hs
      · rw [if_neg hc]
        exact Or.inr ⟨_, _, (Merged.refl kcp buffer).fragments hm false fun _ => not_le.mp hc,
          by rw [length_ikcpFragment]⟩
  | true =>
      have hmerged := ikcpExtendTail_merged kcp buffer
      simp only [ite_true, true_and, Bool.not_true, Bool.false_eq_true, false_and, ite_false]
      by_cases hnil : (ikcpExtendTail kcp.mss.toNat kcp.sndQueue buffer).2 = []
      · rw [hnil] at hmerged
        refine Or.inr ⟨_, [], hmerged.nothing_left, ?_⟩
        rw [if_pos hnil, List.append_nil, List.length_nil]
        simp
      · refine Or.inr ⟨_, _, hmerged.fragments hm true (by simp), ?_⟩
        rw [if_neg hnil, length_ikcpFragment]

/-- Fragments behind the queue, with the counter, keep the sending side in order. -/
theorem Written.inv {kcp : IKCPCB} {data : List UInt8} {queue added : List IKCPSEG}
    (hw : Written kcp data queue added) (h : kcp.sendSide.Inv) :
    (kcp.setSndQueue (queue ++ added)
      (kcp.nsndQue + UInt32.ofNat added.length)).sendSide.Inv where
  nque_eq := by
    have hn : kcp.nsndQue = UInt32.ofNat kcp.sndQueue.length := h.nque_eq
    change kcp.nsndQue + UInt32.ofNat added.length = UInt32.ofNat (queue ++ added).length
    rw [hn, List.length_append, hw.length_eq, UInt32.ofNat_add]
  nbuf_eq := h.nbuf_eq
  within := h.within
  una_eq := h.una_eq
  flight_le := h.flight_le
  flight_lt := h.flight_lt
  rmt_lt := h.rmt_lt
  queued seg hseg := by
    rcases List.mem_append.mp hseg with hq | hq
    · rcases hw.data_le seg hq with hold | ⟨hle, hfrg⟩
      · exact h.queued seg hold
      · exact ⟨hle, by rw [hfrg]; decide⟩
    · exact ⟨hw.added_data_le seg hq, hw.added_frg_lt seg hq⟩
  last_frg := hw.last_frg h.last_frg
  buffered := h.buffered
  pushed := h.pushed

/-- A write keeps the invariant of the sending side, also when it is refused. -/
theorem ikcpWrite_inv {kcp : IKCPCB} (hm : 0 < kcp.mss.toNat) (h : kcp.sendSide.Inv)
    (data : List UInt8) (alwaysStream : Bool) :
    (ikcpWrite kcp data alwaysStream).2.sendSide.Inv := by
  rcases ikcpWrite_cases hm data alwaysStream with ⟨_, heq, _⟩ | ⟨queue, added, hw, heq⟩
  · rwa [heq]
  · rw [heq]
    exact hw.inv h

/-- A write does not touch the receiving side. -/
theorem ikcpWrite_receiveSide (kcp : IKCPCB) (data : List UInt8) (alwaysStream : Bool) :
    (ikcpWrite kcp data alwaysStream).2.receiveSide = kcp.receiveSide := by
  simp only [ikcpWrite]
  repeat' split
  all_goals rfl

end CodeBlocks.Kcp
