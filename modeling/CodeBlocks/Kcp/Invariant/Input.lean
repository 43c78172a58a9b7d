import CodeBlocks.Kcp.Invariant.Config

/-!
# Hostile input keeps both windows

Whatever a datagram holds, the segments accepted from it only remove segments
from `snd_buf` and store segments inside the receive window. The effect of one
segment is described exactly enough to say which segments may leave: those below
its `una`, and for an acknowledgement the one with its number.
-/

namespace CodeBlocks.Kcp

open Serial

/-- A cumulative acknowledgement removes a front part of `snd_buf`. -/
theorem ikcpParseUnaLoop_spec (una : UInt32) (buf : List IKCPSEG) (n : UInt32) :
    ∃ gone kept, buf = gone ++ kept ∧ (∀ seg ∈ gone, itimediff una seg.sn > 0) ∧
      ikcpParseUnaLoop una buf n = (kept, n - UInt32.ofNat gone.length) := by
  induction buf generalizing n with
  | nil => exact ⟨[], [], rfl, by simp, by simp [ikcpParseUnaLoop]⟩
  | cons seg buf ih =>
      by_cases hd : itimediff una seg.sn > 0
      · obtain ⟨gone, kept, rfl, hgone, heq⟩ := ih (n - 1)
        refine ⟨seg :: gone, kept, rfl, ?_, ?_⟩
        · intro s hs
          rcases List.mem_cons.mp hs with rfl | hs
          · exact hd
          · exact hgone s hs
        · rw [ikcpParseUnaLoop, if_pos hd, heq, List.length_cons, UInt32.ofNat_add]
          congr 1
          grind
      · exact ⟨[], seg :: buf, rfl, by simp, by simp [ikcpParseUnaLoop, hd]⟩

/-- A selective acknowledgement removes at most the segment with its number. -/
theorem ikcpParseAckLoop_spec (sn : UInt32) (buf : List IKCPSEG) (n : UInt32) :
    ikcpParseAckLoop sn buf n = (buf, n) ∨
      ∃ before seg after, buf = before ++ seg :: after ∧ seg.sn = sn ∧
        ikcpParseAckLoop sn buf n = (before ++ after, n - 1) := by
  induction buf with
  | nil => exact Or.inl rfl
  | cons seg buf ih =>
      unfold ikcpParseAckLoop
      by_cases he : sn = seg.sn
      · exact Or.inr ⟨[], seg, buf, rfl, he.symm, by rw [if_pos he, List.nil_append]⟩
      rw [if_neg he]
      by_cases hd : itimediff sn seg.sn < 0
      · exact Or.inl (by rw [if_pos hd])
      rw [if_neg hd]
      rcases ih with heq | ⟨before, s, after, rfl, hs, heq⟩
      · exact Or.inl (by rw [heq])
      · exact Or.inr ⟨seg :: before, s, after, rfl, hs, by rw [heq, List.cons_append]⟩

/-- `snd_una` becomes the first number in `snd_buf`. -/
theorem ikcpShrinkBuf_sendSide {kcp : IKCPCB} (hn : kcp.nsndBuf = UInt32.ofNat kcp.sndBuf.length) :
    (ikcpShrinkBuf kcp).sendSide = kcp.sendSide.shrink (kcp.sndBuf.map IKCPSEG.core) := by
  unfold ikcpShrinkBuf
  cases hb : kcp.sndBuf with
  | nil => simp [IKCPCB.sendSide, SendSide.shrink, hn, hb]
  | cons seg rest => simp [IKCPCB.sendSide, SendSide.shrink, hn, hb]

theorem ikcpShrinkBuf_receiveSide (kcp : IKCPCB) :
    (ikcpShrinkBuf kcp).receiveSide = kcp.receiveSide := by
  unfold ikcpShrinkBuf
  split <;> rfl

/-- What a removal from `snd_buf` followed by `ikcp_shrink_buf` leaves: some of
the segments, and all of those that `gone` does not allow to go. -/
def Shrunk (s : SendSide) (gone : IKCPSEG → Prop) (s' : SendSide) : Prop :=
  ∃ kept : List IKCPSEG, kept.Sublist s.buf ∧ (∀ seg ∈ s.buf, seg ∈ kept ∨ gone seg) ∧
    s' = s.shrink kept

/-- A sending half that only loses segments stays consistent. -/
theorem Shrunk.inv {s s' : SendSide} {gone : IKCPSEG → Prop} (h : Shrunk s gone s')
    (hs : s.Inv) : s'.Inv := by
  obtain ⟨kept, hsub, _, rfl⟩ := h
  exact hs.shrink hsub

/-- Two removals are one. -/
theorem Shrunk.trans {s s₁ s₂ : SendSide} {gone₁ gone₂ : IKCPSEG → Prop}
    (h₁ : Shrunk s gone₁ s₁) (h₂ : Shrunk s₁ gone₂ s₂) :
    Shrunk s (fun seg => gone₁ seg ∨ gone₂ seg) s₂ := by
  obtain ⟨kept₁, hsub₁, hgone₁, rfl⟩ := h₁
  obtain ⟨kept₂, hsub₂, hgone₂, rfl⟩ := h₂
  refine ⟨kept₂, hsub₂.trans hsub₁, ?_, rfl⟩
  intro seg hseg
  rcases hgone₁ seg hseg with hk | hg
  · exact (hgone₂ seg hk).imp_right Or.inr
  · exact Or.inr (Or.inl hg)

/-- What is gone may be described more widely. -/
theorem Shrunk.mono {s s' : SendSide} {gone gone' : IKCPSEG → Prop} (h : Shrunk s gone s')
    (hg : ∀ seg, gone seg → gone' seg) : Shrunk s gone' s' := by
  obtain ⟨kept, hsub, hkept, rfl⟩ := h
  exact ⟨kept, hsub, fun seg hseg => (hkept seg hseg).imp_right (hg seg), rfl⟩

private theorem shrunk_of_kept {kcp : IKCPCB} (gone : UInt32 → Prop) {s' : SendSide}
    {kept : List IKCPSEG} (hsub : kept.Sublist kcp.sndBuf)
    (hkept : ∀ seg ∈ kcp.sndBuf, seg ∈ kept ∨ gone seg.sn)
    (hs' : s' = kcp.sendSide.shrink (kept.map IKCPSEG.core)) :
    Shrunk kcp.sendSide (fun seg => gone seg.sn) s' := by
  refine ⟨kept.map IKCPSEG.core, hsub.map _, ?_, hs'⟩
  intro c hc
  obtain ⟨seg, hseg, rfl⟩ := List.mem_map.mp hc
  exact (hkept seg hseg).imp_left List.mem_map_of_mem

private theorem nsndBuf_eq {kcp : IKCPCB} (h : kcp.sendSide.Inv) :
    kcp.nsndBuf = UInt32.ofNat kcp.sndBuf.length := by
  simpa [IKCPCB.sendSide] using h.nbuf_eq

/-- `ikcp_parse_una` and `ikcp_shrink_buf` together. -/
theorem ikcpParseUna_shrunk {kcp : IKCPCB} (h : kcp.sendSide.Inv) (una : UInt32) :
    Shrunk kcp.sendSide (fun seg => itimediff una seg.sn > 0)
      (ikcpShrinkBuf (ikcpParseUna kcp una)).sendSide := by
  obtain ⟨gone, kept, hb, hgone, heq⟩ := ikcpParseUnaLoop_spec una kcp.sndBuf kcp.nsndBuf
  refine shrunk_of_kept (fun sn => itimediff una sn > 0)
    (hb ▸ List.sublist_append_right gone kept) ?_ ?_
  · intro seg hseg
    rw [hb] at hseg
    exact (List.mem_append.mp hseg).symm.imp_right (hgone seg)
  · rw [ikcpShrinkBuf_sendSide]
    · simp only [ikcpParseUna, heq]
      rfl
    · simp only [ikcpParseUna, heq]
      rw [nsndBuf_eq h, hb, List.length_append, UInt32.ofNat_add]
      grind

/-- `ikcp_parse_ack` and `ikcp_shrink_buf` together. -/
theorem ikcpParseAck_shrunk {kcp : IKCPCB} (h : kcp.sendSide.Inv) (sn : UInt32) :
    Shrunk kcp.sendSide (fun seg => seg.sn = sn)
      (ikcpShrinkBuf (ikcpParseAck kcp sn)).sendSide := by
  have hsame : Shrunk kcp.sendSide (fun seg => seg.sn = sn) (ikcpShrinkBuf kcp).sendSide :=
    shrunk_of_kept (· = sn) (List.Sublist.refl _) (fun _ hseg => Or.inl hseg)
      (ikcpShrinkBuf_sendSide (nsndBuf_eq h))
  unfold ikcpParseAck
  split
  · exact hsame
  rcases ikcpParseAckLoop_spec sn kcp.sndBuf kcp.nsndBuf with
    heq | ⟨before, seg, after, hb, hseg, heq⟩
  · rw [heq]
    exact hsame
  · rw [heq]
    have hsub : (before ++ after).Sublist kcp.sndBuf := by
      rw [hb]
      exact (List.Sublist.refl before).append (List.sublist_cons_self seg after)
    refine shrunk_of_kept (· = sn) hsub ?_ ?_
    · intro s hs
      rw [hb] at hs
      rcases List.mem_append.mp hs with hs | hs
      · exact Or.inl (List.mem_append_left _ hs)
      · rcases List.mem_cons.mp hs with rfl | hs
        · exact Or.inr hseg
        · exact Or.inl (List.mem_append_right _ hs)
    · rw [ikcpShrinkBuf_sendSide]
      · rfl
      · change kcp.nsndBuf - 1 = UInt32.ofNat (before ++ after).length
        rw [nsndBuf_eq h, hb, List.length_append, List.length_append, List.length_cons,
          ← Nat.add_assoc, UInt32.ofNat_add (_ + _)]
        grind

theorem ikcpParseUna_receiveSide (kcp : IKCPCB) (una : UInt32) :
    (ikcpParseUna kcp una).receiveSide = kcp.receiveSide := rfl

theorem ikcpParseAck_receiveSide (kcp : IKCPCB) (sn : UInt32) :
    (ikcpParseAck kcp sn).receiveSide = kcp.receiveSide := by
  unfold ikcpParseAck
  split <;> rfl

/-- A pushed segment leaves the sending half alone. -/
theorem ikcpInputPush_sendSide (kcp : IKCPCB) (seg : IKCPSEG) :
    (ikcpInputPush kcp seg).sendSide = kcp.sendSide := by
  have hparse (k : IKCPCB) : (ikcpParseData k seg).sendSide = k.sendSide := by
    unfold ikcpParseData
    split
    · rfl
    · split
      · exact ikcpMove_sendSide k
      · exact ikcpMove_sendSide _
  unfold ikcpInputPush
  split
  · simp only
    split
    · exact hparse _
    · rfl
  · rfl

/-- Storing a segment keeps the receiving half consistent. -/
theorem ikcpParseData_inv {kcp : IKCPCB} (h : kcp.receiveSide.Inv) (seg : IKCPSEG) :
    (ikcpParseData kcp seg).receiveSide.Inv := by
  rcases ikcpParseData_cases h seg with ⟨_, heq⟩ | ⟨_, ⟨_, heq⟩ | ⟨_, _, _, hstore, heq⟩⟩
  · rwa [heq]
  · rw [heq]
    exact ikcpMove_inv h
  · rw [heq]
    exact ikcpMove_inv hstore

/-- Queued acknowledgements do not touch the window. -/
theorem ikcpAckPush_inv {kcp : IKCPCB} (h : kcp.receiveSide.Inv) (sn ts : UInt32) :
    (ikcpAckPush kcp sn ts).receiveSide.Inv :=
  ⟨h.wnd_lt, h.nque_eq, h.nque_le, h.nbuf_eq, h.within⟩

/-- So does a PUSH segment. -/
theorem ikcpInputPush_inv {kcp : IKCPCB} (h : kcp.receiveSide.Inv) (seg : IKCPSEG) :
    (ikcpInputPush kcp seg).receiveSide.Inv := by
  have hack := ikcpAckPush_inv h seg.sn seg.ts
  unfold ikcpInputPush
  split
  · simp only
    split
    · exact ikcpParseData_inv hack seg
    · exact hack
  · exact h

/-- The remote window is any 16-bit number. -/
theorem SendSide.Inv.setRmt {s : SendSide} (h : s.Inv) {rmt : UInt32} (hr : rmt.toNat < 2 ^ 16) :
    SendSide.Inv { s with rmt := rmt } :=
  ⟨h.nque_eq, h.nbuf_eq, h.within, h.una_eq, h.flight_le, h.flight_lt, hr, h.queued,
    h.last_frg, h.buffered, h.pushed⟩

/-- Which segments of `snd_buf` an accepted segment may remove. -/
def Acked (seg s : IKCPSEG) : Prop :=
  itimediff seg.una s.sn > 0 ∨ (seg.cmd = ikcpCmdAck ∧ s.sn = seg.sn)

/-- The branch for an acknowledgement removes at most its own number. -/
theorem ikcpInputAck_shrunk (st : InputState) (h : st.kcp.sendSide.Inv) (seg : IKCPSEG) :
    Shrunk st.kcp.sendSide (fun s => s.sn = seg.sn) (ikcpInputAck st seg).kcp.sendSide := by
  have hrtt (rtt : Int32) : (ikcpUpdateAck st.kcp rtt).sendSide = st.kcp.sendSide := rfl
  have hstep (kcp : IKCPCB) (hk : kcp.sendSide = st.kcp.sendSide) :
      Shrunk st.kcp.sendSide (fun s => s.sn = seg.sn)
        (ikcpShrinkBuf (ikcpParseAck kcp seg.sn)).sendSide := by
    rw [← hk] at h ⊢
    exact ikcpParseAck_shrunk h seg.sn
  unfold ikcpInputAck
  cases st.maxack <;> simp only <;> split
  all_goals exact hstep _ rfl

/-- An acknowledgement concerns the sending half. -/
theorem ikcpInputAck_receiveSide (st : InputState) (seg : IKCPSEG) :
    (ikcpInputAck st seg).kcp.receiveSide = st.kcp.receiveSide := by
  unfold ikcpInputAck
  cases st.maxack <;> simp only <;> split
  all_goals
    rw [ikcpShrinkBuf_receiveSide, ikcpParseAck_receiveSide]
    try rfl

/-- The sending half after one accepted segment: only acknowledged segments are gone. -/
theorem ikcpInputSeg_shrunk {st : InputState} (h : st.kcp.sendSide.Inv) {seg : IKCPSEG}
    (hw : seg.wnd.toNat < 2 ^ 16) :
    Shrunk { st.kcp.sendSide with rmt := seg.wnd } (Acked seg)
      (ikcpInputSeg st seg).kcp.sendSide := by
  have hr : ({ st.kcp with rmtWnd := seg.wnd } : IKCPCB).sendSide.Inv := h.setRmt hw
  have huna : Shrunk { st.kcp.sendSide with rmt := seg.wnd }
      (fun s => itimediff seg.una s.sn > 0) (ikcpInputCommon st.kcp seg).sendSide :=
    ikcpParseUna_shrunk hr seg.una
  have hmono := huna.mono fun s hs => (Or.inl hs : Acked seg s)
  unfold ikcpInputSeg
  simp only
  split
  · rename_i hack
    refine (huna.trans (ikcpInputAck_shrunk ⟨_, st.maxack⟩ (huna.inv hr) seg)).mono ?_
    intro s hs
    exact hs.imp_right fun hsn => ⟨hack, hsn⟩
  split
  · simp only [ikcpInputPush_sendSide]
    exact hmono
  split
  · exact hmono
  · exact hmono

theorem ikcpInputCommon_receiveSide (kcp : IKCPCB) (seg : IKCPSEG) :
    (ikcpInputCommon kcp seg).receiveSide = kcp.receiveSide := by
  rw [ikcpInputCommon, ikcpShrinkBuf_receiveSide, ikcpParseUna_receiveSide]
  rfl

/-- The receiving half after one accepted segment: only pushed data reaches it. -/
theorem ikcpInputSeg_receiveSide (st : InputState) (seg : IKCPSEG) :
    (ikcpInputSeg st seg).kcp.receiveSide = st.kcp.receiveSide ∨
      seg.cmd = ikcpCmdPush ∧ ∃ kcp : IKCPCB, kcp.receiveSide = st.kcp.receiveSide ∧
        (ikcpInputSeg st seg).kcp.receiveSide = (ikcpInputPush kcp seg).receiveSide := by
  have hcommon := ikcpInputCommon_receiveSide st.kcp seg
  unfold ikcpInputSeg
  split
  · exact Or.inl (by rw [ikcpInputAck_receiveSide]; exact hcommon)
  split
  · rename_i hpush
    exact Or.inr ⟨hpush, _, hcommon, rfl⟩
  split
  · exact Or.inl hcommon
  · exact Or.inl hcommon

/-- Every accepted segment was read from some bytes. -/
theorem ikcpSegments_read {fuel : Nat} {conv : UInt32} {data : List UInt8} {seg : IKCPSEG}
    (h : seg ∈ (ikcpSegments fuel conv data).2.1) :
    ∃ bytes rest, ikcpReadSeg conv bytes = .ok (seg, rest) := by
  induction fuel generalizing data with
  | zero => simp [ikcpSegments] at h
  | succ fuel ih =>
      unfold ikcpSegments at h
      split at h
      · simp at h
      cases hread : ikcpReadSeg conv data with
      | error rc => simp [hread] at h
      | ok read =>
          obtain ⟨s, rest⟩ := read
          rw [hread] at h
          rcases List.mem_cons.mp h with rfl | hmem
          · exact ⟨data, rest, hread⟩
          · exact ih hmem

/-- An accepted segment carries a 16-bit window. -/
theorem ikcpReadSeg_wnd_lt {conv : UInt32} {bytes rest : List UInt8} {seg : IKCPSEG}
    (h : ikcpReadSeg conv bytes = .ok (seg, rest)) : seg.wnd.toNat < 2 ^ 16 := by
  simp only [ikcpReadSeg] at h
  split at h
  · cases h
  split at h
  · cases h
  split at h
  · cases h
  · rw [Except.ok.injEq, Prod.mk.injEq] at h
    rw [← h.1]
    exact UInt16.toNat_lt _

/-- Counting the skipped segments leaves their core. -/
theorem ikcpFastackLoop_core (sn : UInt32) (buf : List IKCPSEG) :
    (ikcpFastackLoop sn buf).map IKCPSEG.core = buf.map IKCPSEG.core := by
  induction buf with
  | nil => rfl
  | cons seg buf ih =>
      unfold ikcpFastackLoop
      split
      · rfl
      split
      · rw [List.map_cons, List.map_cons, ih]
        rfl
      · rw [List.map_cons, List.map_cons, ih]

/-- The congestion window is part of neither half. -/
theorem ikcpUpdateCwnd_sides (kcp : IKCPCB) (prevUna : UInt32) :
    (ikcpUpdateCwnd kcp prevUna).sendSide = kcp.sendSide ∧
      (ikcpUpdateCwnd kcp prevUna).receiveSide = kcp.receiveSide := by
  simp only [ikcpUpdateCwnd]
  repeat' split
  all_goals exact ⟨rfl, rfl⟩

/-- The end of a datagram changes only retransmission and congestion bookkeeping. -/
theorem ikcpInputEnd_sides (st : InputState) (prevUna : UInt32) :
    (ikcpInputEnd st prevUna).sendSide = st.kcp.sendSide ∧
      (ikcpInputEnd st prevUna).receiveSide = st.kcp.receiveSide := by
  rw [ikcpInputEnd, (ikcpUpdateCwnd_sides _ prevUna).1, (ikcpUpdateCwnd_sides _ prevUna).2]
  cases st.maxack with
  | none => exact ⟨rfl, rfl⟩
  | some maxack =>
      simp only [ikcpParseFastack]
      split
      · exact ⟨rfl, rfl⟩
      · simp only [IKCPCB.sendSide, IKCPCB.receiveSide, ikcpFastackLoop_core, and_self]

/-- One segment of a datagram keeps the sending half consistent. -/
theorem ikcpInputSeg_sendSide_inv {st : InputState} (h : st.kcp.sendSide.Inv) {seg : IKCPSEG}
    (hw : seg.wnd.toNat < 2 ^ 16) : (ikcpInputSeg st seg).kcp.sendSide.Inv :=
  (ikcpInputSeg_shrunk h hw).inv (h.setRmt hw)

/-- It keeps the receiving half consistent as well. -/
theorem ikcpInputSeg_receiveSide_inv {st : InputState} (h : st.kcp.receiveSide.Inv)
    (seg : IKCPSEG) : (ikcpInputSeg st seg).kcp.receiveSide.Inv := by
  rcases ikcpInputSeg_receiveSide st seg with heq | ⟨_, k, hk, heq⟩
  · rwa [heq]
  · rw [heq]
    exact ikcpInputPush_inv (hk ▸ h) seg

/-- A datagram keeps the sending half consistent. -/
theorem ikcpInput_sendSide_inv {kcp : IKCPCB} (h : kcp.sendSide.Inv) (data : List UInt8) :
    (ikcpInput kcp data).2.sendSide.Inv := by
  refine ikcpInput_induct (P := fun k => k.sendSide.Inv) data h ?_ ?_
  · intro st seg hseg hst
    obtain ⟨bytes, rest, hread⟩ := ikcpSegments_read hseg
    exact ikcpInputSeg_sendSide_inv hst (ikcpReadSeg_wnd_lt hread)
  · intro st hst
    rw [(ikcpInputEnd_sides st _).1]
    exact hst

/-- It keeps the receiving half consistent as well. -/
theorem ikcpInput_receiveSide_inv {kcp : IKCPCB} (h : kcp.receiveSide.Inv)
    (data : List UInt8) : (ikcpInput kcp data).2.receiveSide.Inv := by
  refine ikcpInput_induct (P := fun k => k.receiveSide.Inv) data h ?_ ?_
  · intro st seg _ hst
    exact ikcpInputSeg_receiveSide_inv hst seg
  · intro st hst
    rw [(ikcpInputEnd_sides st _).2]
    exact hst

end CodeBlocks.Kcp
