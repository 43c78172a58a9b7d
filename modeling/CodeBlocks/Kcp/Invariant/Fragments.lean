import CodeBlocks.Kcp.Invariant.Tally

/-!
# What a write leaves in the send queue

The exact queue after `ikcp_write` in both modes. Message mode appends fragments
that are numbered down to zero; stream mode fills up the last segment and then
appends segments that each close a message of their own. Either way the bytes of
the queue grow by the bytes written.
-/

namespace CodeBlocks.Kcp

/-- A number of bytes in segments of a size, rounded up. -/
def segmentsFor (mss len : Nat) : Nat := (len + mss - 1) / mss

/-- No bytes need no segment. -/
theorem segmentsFor_zero {mss : Nat} (hm : 0 < mss) : segmentsFor mss 0 = 0 :=
  Nat.div_eq_of_lt (by omega)

/-- There is a fragment even for no bytes. -/
theorem ikcpFragmentCount_eq {mss : Nat} (hm : 0 < mss) (len : Nat) :
    ikcpFragmentCount mss len = max 1 (segmentsFor mss len) := by
  unfold ikcpFragmentCount segmentsFor
  split
  · rename_i hle
    have hlt : (len + mss - 1) / mss < 2 := by
      rw [Nat.div_lt_iff_lt_mul hm]
      omega
    omega
  · rename_i hgt
    have hpos : 1 ≤ (len + mss - 1) / mss := by
      rw [Nat.one_le_div_iff hm]
      omega
    omega

/-- The fragments of a message are numbered down to zero. -/
theorem ikcpFragment_frg_message (mss count : Nat) (buffer : List UInt8) :
    (ikcpFragment mss false count buffer).map IKCPSEG.frg =
      (List.range count).reverse.map UInt32.ofNat := by
  induction count generalizing buffer with
  | zero => rfl
  | succ count ih =>
      rw [ikcpFragment, List.map_cons, ih, List.range_succ, List.reverse_append,
        List.reverse_singleton, List.singleton_append, List.map_cons]
      rfl

/-- In stream mode every fragment ends a message. -/
theorem ikcpFragment_frg_stream (mss count : Nat) (buffer : List UInt8) :
    ∀ seg ∈ ikcpFragment mss true count buffer, seg.frg = 0 := by
  induction count generalizing buffer with
  | zero => simp [ikcpFragment]
  | succ count ih =>
      intro seg hseg
      rw [ikcpFragment] at hseg
      rcases List.mem_cons.mp hseg with rfl | hseg
      · rfl
      · exact ih _ seg hseg

/-- The queue that stream mode appends to: every segment but the last is as it was, and the last
one is as well or ends a message. -/
structure TailFilled (queue filled : List IKCPSEG) : Prop where
  length_eq : filled.length = queue.length
  front_eq : filled.dropLast = queue.dropLast
  last_frg : filled = queue ∨ ∀ seg, filled.getLast? = some seg → seg.frg = 0

/-- The last segment is filled before a new one is made. -/
theorem ikcpExtendTail_filled (mss : Nat) (queue : List IKCPSEG) (buffer : List UInt8) :
    TailFilled queue (ikcpExtendTail mss queue buffer).1 := by
  rcases ikcpExtendTail_spec mss queue buffer with heq | ⟨init, old, extend, rfl, -, heq⟩
  · rw [heq]
    exact ⟨rfl, rfl, Or.inl rfl⟩
  · rw [heq]
    refine ⟨by simp, by simp, Or.inr fun seg hseg => ?_⟩
    rw [List.getLast?_concat, Option.some.injEq] at hseg
    rw [← hseg]

/-- What `ikcp_write` leaves when it returns zero. -/
structure Fragmented (kcp : IKCPCB) (data : List UInt8) (streamMode : Bool) (kcp' : IKCPCB) :
    Prop where
  rest_eq : kcp' = kcp.setSndQueue kcp'.sndQueue kcp'.nsndQue
  payload_eq : payload kcp'.sndQueue = payload kcp.sndQueue ++ data
  nque_eq : kcp'.nsndQue = UInt32.ofNat kcp'.sndQueue.length
  len_le : ∀ seg ∈ kcp'.sndQueue, seg.data.length ≤ kcp.mss.toNat
  message : streamMode = false → ∃ added, kcp'.sndQueue = kcp.sndQueue ++ added ∧
    added.map IKCPSEG.frg =
      (List.range (max 1 (segmentsFor kcp.mss.toNat data.length))).reverse.map UInt32.ofNat
  stream : streamMode = true → ∃ filled added, kcp'.sndQueue = filled ++ added ∧
    TailFilled kcp.sndQueue filled ∧ (∀ seg ∈ added, seg.frg = 0) ∧
    added.length =
      segmentsFor kcp.mss.toNat (data.length - tailRoom kcp.mss.toNat kcp.sndQueue)

/-- The mode in which `ikcp_write` runs. -/
def IKCPCB.streamMode (kcp : IKCPCB) (alwaysStream : Bool) : Bool :=
  decide (kcp.stream ≠ 0) || alwaysStream

/-- The parts of the statement that both modes share. -/
theorem Written.fragmented {kcp : IKCPCB} {data : List UInt8} {queue added : List IKCPSEG}
    (hw : Written kcp data queue added)
    (hsegs : ∀ seg ∈ kcp.sndQueue, seg.data.length ≤ kcp.mss.toNat)
    (hnque : kcp.nsndQue = UInt32.ofNat kcp.sndQueue.length) (streamMode : Bool)
    (hmessage : streamMode = false → queue = kcp.sndQueue ∧ added.map IKCPSEG.frg =
      (List.range (max 1 (segmentsFor kcp.mss.toNat data.length))).reverse.map UInt32.ofNat)
    (hstream : streamMode = true → TailFilled kcp.sndQueue queue ∧ (∀ seg ∈ added, seg.frg = 0) ∧
      added.length =
        segmentsFor kcp.mss.toNat (data.length - tailRoom kcp.mss.toNat kcp.sndQueue)) :
    Fragmented kcp data streamMode
      (kcp.setSndQueue (queue ++ added) (kcp.nsndQue + UInt32.ofNat added.length)) where
  rest_eq := rfl
  payload_eq := hw.payload_eq
  nque_eq := by
    change kcp.nsndQue + UInt32.ofNat added.length = UInt32.ofNat (queue ++ added).length
    rw [hnque, List.length_append, hw.length_eq, UInt32.ofNat_add]
  len_le := by
    intro seg hseg
    rcases List.mem_append.mp hseg with hold | hnew
    · exact (hw.data_le seg hold).elim (hsegs seg) And.left
    · exact hw.added_data_le seg hnew
  message := by
    intro hmode
    obtain ⟨hqueue, hfrg⟩ := hmessage hmode
    exact ⟨added, hqueue ▸ rfl, hfrg⟩
  stream := fun hmode => ⟨queue, added, rfl, hstream hmode⟩

section Write

variable {kcp : IKCPCB} {data : List UInt8} {alwaysStream : Bool}

/-- A length that is not negative as an `int` admits all bytes. -/
theorem ikcpWrite_eq (hlen : data.length < 2 ^ 31) :
    ikcpWrite kcp data alwaysStream =
      if kcp.streamMode alwaysStream then
        let merged := ikcpExtendTail kcp.mss.toNat kcp.sndQueue data
        if merged.2 = [] then (0, kcp.setSndQueue merged.1 kcp.nsndQue)
        else
          let count := ikcpFragmentCount kcp.mss.toNat merged.2.length
          (0, kcp.setSndQueue (merged.1 ++ ikcpFragment kcp.mss.toNat true count merged.2)
            (kcp.nsndQue + UInt32.ofNat count))
      else
        let count := ikcpFragmentCount kcp.mss.toNat data.length
        if count ≥ ikcpWndRcv.toNat then (-2, kcp)
        else
          (0, kcp.setSndQueue (kcp.sndQueue ++ ikcpFragment kcp.mss.toNat false count data)
            (kcp.nsndQue + UInt32.ofNat count)) := by
  have hint := ikcpIntLen_eq hlen
  unfold ikcpWrite
  rw [if_neg (by omega), hint, Int.toNat_natCast, List.take_length, ← IKCPCB.streamMode]
  cases kcp.streamMode alwaysStream with
  | true => simp
  | false => simp

/-- Message mode refuses a message of too many fragments, or appends all of them. -/
theorem ikcpWrite_message (hm : 0 < kcp.mss.toNat) (hlen : data.length < 2 ^ 31)
    (hsegs : ∀ seg ∈ kcp.sndQueue, seg.data.length ≤ kcp.mss.toNat)
    (hnque : kcp.nsndQue = UInt32.ofNat kcp.sndQueue.length)
    (hmode : kcp.streamMode alwaysStream = false) :
    ikcpWrite kcp data alwaysStream = (-2, kcp) ∨
      (ikcpWrite kcp data alwaysStream).1 = 0 ∧
        Fragmented kcp data false (ikcpWrite kcp data alwaysStream).2 := by
  rw [ikcpWrite_eq hlen, hmode]
  simp only [Bool.false_eq_true, if_false]
  split
  · exact Or.inl rfl
  · rename_i hcount
    have hw := (Merged.refl kcp data).fragments hm false fun _ => not_le.mp hcount
    have hfrag := hw.fragmented hsegs hnque false (fun _ => ⟨rfl, ?_⟩) (by simp)
    · rw [length_ikcpFragment] at hfrag
      exact Or.inr ⟨rfl, hfrag⟩
    · rw [ikcpFragment_frg_message, ikcpFragmentCount_eq hm]

/-- Stream mode is never refused. -/
theorem ikcpWrite_stream (hm : 0 < kcp.mss.toNat) (hlen : data.length < 2 ^ 31)
    (hsegs : ∀ seg ∈ kcp.sndQueue, seg.data.length ≤ kcp.mss.toNat)
    (hnque : kcp.nsndQue = UInt32.ofNat kcp.sndQueue.length)
    (hmode : kcp.streamMode alwaysStream = true) :
    (ikcpWrite kcp data alwaysStream).1 = 0 ∧
      Fragmented kcp data true (ikcpWrite kcp data alwaysStream).2 := by
  have hmerged := ikcpExtendTail_merged kcp data
  have hfilled := ikcpExtendTail_filled kcp.mss.toNat kcp.sndQueue data
  have hrest := (ikcpExtendTail_room kcp.mss.toNat kcp.sndQueue data).2.2
  rw [ikcpWrite_eq hlen, hmode]
  simp only [if_true]
  split
  · rename_i hnil
    rw [hnil] at hmerged hrest
    have hfrag := hmerged.nothing_left.fragmented hsegs hnque true (by simp)
      fun _ => ⟨hfilled, by simp, ?_⟩
    · simp only [List.append_nil, List.length_nil] at hfrag
      exact ⟨rfl, by simpa using hfrag⟩
    · rw [← hrest]
      exact (segmentsFor_zero hm).symm
  · rename_i hne
    have hpos := List.length_pos_iff.mpr hne
    have hfrag := (hmerged.fragments hm true (by simp)).fragmented hsegs hnque true
      (by simp) fun _ => ⟨hfilled, ikcpFragment_frg_stream _ _ _, ?_⟩
    · rw [length_ikcpFragment] at hfrag
      exact ⟨rfl, hfrag⟩
    · rw [length_ikcpFragment, ← hrest, ikcpFragmentCount_eq hm]
      apply max_eq_right
      rw [segmentsFor, Nat.one_le_div_iff hm]
      omega

/-- In both modes `ikcp_write` appends exactly the bytes it is given to those of the send queue, in
segments that are no longer than `mss`, or refuses them and changes nothing. -/
theorem ikcpWrite_fragmented (kcp : IKCPCB) (data : List UInt8) (alwaysStream : Bool)
    (hm : 0 < kcp.mss.toNat) (hlen : data.length < 2 ^ 31)
    (hsegs : ∀ seg ∈ kcp.sndQueue, seg.data.length ≤ kcp.mss.toNat)
    (hnque : kcp.nsndQue = UInt32.ofNat kcp.sndQueue.length) :
    ((ikcpWrite kcp data alwaysStream).1 = 0 →
        Fragmented kcp data (kcp.streamMode alwaysStream)
          (ikcpWrite kcp data alwaysStream).2) ∧
      ((ikcpWrite kcp data alwaysStream).1 ≠ 0 → (ikcpWrite kcp data alwaysStream).2 = kcp) := by
  cases hmode : kcp.streamMode alwaysStream with
  | true =>
      obtain ⟨hok, hfrag⟩ := ikcpWrite_stream hm hlen hsegs hnque hmode
      exact ⟨fun _ => hfrag, fun hne => absurd hok hne⟩
  | false =>
      rcases ikcpWrite_message hm hlen hsegs hnque hmode with heq | ⟨hok, hfrag⟩
      · rw [heq]
        refine ⟨fun hzero => ?_, fun _ => rfl⟩
        cases hzero
      · exact ⟨fun _ => hfrag, fun hne => absurd hok hne⟩

end Write

/-- A queue whose last segment has room for two of five bytes. -/
def halfFilled : IKCPCB :=
  { ikcpCreate 7 with mss := 4, sndQueue := [{ data := [1, 2] }], nsndQue := 1 }

/-- Five bytes in stream mode, of which the last segment takes the first two. -/
theorem ikcpWrite_fragmented_halfFilled :
    (ikcpWrite halfFilled [3, 4, 5, 6, 7] true).1 = 0 ∧
      Fragmented halfFilled [3, 4, 5, 6, 7] true (ikcpWrite halfFilled [3, 4, 5, 6, 7] true).2 := by
  have hok : (ikcpWrite halfFilled [3, 4, 5, 6, 7] true).1 = 0 := by decide
  refine ⟨hok, (ikcpWrite_fragmented halfFilled [3, 4, 5, 6, 7] true ?_ ?_ ?_ ?_).1 hok⟩
  · decide
  · decide
  · decide
  · decide

end CodeBlocks.Kcp
