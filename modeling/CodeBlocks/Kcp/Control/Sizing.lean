import CodeBlocks.Core.Run
import CodeBlocks.Kcp.Control.State

/-!
# The two size setters

`ikcp_setmtu` and `ikcp_set_head_room` both derive `mss` from fields that the
other one writes. The head-room setter keeps at least one byte of payload. The
mtu setter compares the new size with the head room alone, without the segment
header, so that a size within `ikcpOverhead` of the head room leaves no payload.
-/

namespace CodeBlocks.Kcp

/-- A call of one of the size setters. `ikcp_setmtu` asks for a new buffer once
its guards are passed; `allocated` is what `ikcp_malloc` answers. -/
inductive SizingCall where
  | setmtu (mtu : Int32) (allocated : Bool)
  | setHeadRoom (headRoom : UInt32)
  deriving DecidableEq, Repr

namespace SizingCall

/-- The return code of a call and the control block after it. -/
def call (kcp : IKCPCB) : SizingCall → Int × IKCPCB
  | .setmtu mtu allocated =>
      if (ikcpSetmtu kcp mtu).1 = 0 ∧ ¬ allocated then (-3, kcp) else ikcpSetmtu kcp mtu
  | .setHeadRoom headRoom => ikcpSetHeadRoom kcp headRoom

/-- The control block after a call, rejected or not. -/
def run (kcp : IKCPCB) (c : SizingCall) : IKCPCB := (c.call kcp).2

/-- The payload of an accepted `ikcp_setmtu` is positive: its size exceeds the
head room by more than the segment header. -/
def Fits (kcp : IKCPCB) : SizingCall → Prop
  | .setmtu mtu allocated =>
      allocated → 50 ≤ mtu.toInt → kcp.headRoom.toNat ≤ mtu.toInt →
        kcp.headRoom.toNat + ikcpOverhead < mtu.toInt
  | .setHeadRoom _ => True

end SizingCall

/-- Head room, segment header and a payload of at least one byte fit into the mtu. -/
def IKCPCB.Sized (kcp : IKCPCB) : Prop :=
  1 ≤ kcp.mss.toNat ∧ kcp.headRoom.toNat + ikcpOverhead + kcp.mss.toNat ≤ kcp.mtu.toNat

instance (kcp : IKCPCB) : Decidable kcp.Sized := inferInstanceAs (Decidable (_ ∧ _))

/-- The guards of `ikcp_setmtu` on unwrapped numbers, where the head room is a positive `int`. -/
theorem ikcpSetmtu_spec {kcp : IKCPCB} (hroom : kcp.headRoom.toNat < 2 ^ 31) (mtu : Int32) :
    (¬ (50 ≤ mtu.toInt ∧ kcp.headRoom.toNat ≤ mtu.toInt) ∧
      (ikcpSetmtu kcp mtu).1 ≠ 0 ∧ (ikcpSetmtu kcp mtu).2 = kcp) ∨
    (50 ≤ mtu.toInt ∧ kcp.headRoom.toNat ≤ mtu.toInt) ∧
      (ikcpSetmtu kcp mtu).1 = 0 ∧ (ikcpSetmtu kcp mtu).2.headRoom = kcp.headRoom ∧
      (ikcpSetmtu kcp mtu).2.mtu.toNat = mtu.toInt ∧
      (ikcpSetmtu kcp mtu).2.mss =
        (ikcpSetmtu kcp mtu).2.mtu - kcp.headRoom - UInt32.ofNat ikcpOverhead := by
  have hfifty : (mtu < 50 ∨ mtu < Int32.ofNat ikcpOverhead) ↔ mtu.toInt < 50 := by
    have h50 : (50 : Int32).toInt = 50 := rfl
    have h24 : (Int32.ofNat ikcpOverhead).toInt = 24 := rfl
    rw [Int32.lt_iff_toInt_lt, Int32.lt_iff_toInt_lt, h50, h24]
    omega
  have hlt : mtu < kcp.headRoom.toInt32 ↔ mtu.toInt < kcp.headRoom.toNat := by
    rw [Int32.lt_iff_toInt_lt, Serial.toInt_toInt32_of_lt hroom]
  unfold ikcpSetmtu
  simp only [hfifty, hlt]
  split
  · exact .inl ⟨by omega, (by decide : (-1 : Int) ≠ 0), rfl⟩
  split
  · exact .inl ⟨by omega, (by decide : (-2 : Int) ≠ 0), rfl⟩
  · refine .inr ⟨by omega, rfl, rfl, ?_, rfl⟩
    have hpos : 0 ≤ mtu := by
      rw [Int32.le_iff_toInt_le]
      change 0 ≤ mtu.toInt
      omega
    change (mtu.toUInt32.toNat : Int) = mtu.toInt
    rw [Int32.toNat_toUInt32_of_le hpos, ← Int32.toNat_toInt]
    omega

theorem sized_ikcpCreate (conv : UInt32) : (ikcpCreate conv).Sized := by
  constructor
  · exact (by decide : 1 ≤ (ikcpMtuDef - UInt32.ofNat ikcpOverhead).toNat)
  · exact (by decide : 0 + ikcpOverhead + (ikcpMtuDef - UInt32.ofNat ikcpOverhead).toNat ≤ 1400)

namespace SizingCall

/-- A rejected call changes nothing. -/
theorem run_of_rejected {kcp : IKCPCB} {c : SizingCall} (h : (c.call kcp).1 ≠ 0) :
    c.run kcp = kcp := by
  cases c with
  | setmtu mtu allocated =>
      rw [run]
      rw [call] at h ⊢
      split
      · rfl
      · rename_i hrun
        rw [if_neg hrun] at h
        revert h
        rw [ikcpSetmtu]
        split
        · exact fun _ => rfl
        split
        · exact fun _ => rfl
        · exact fun h => absurd rfl h
  | setHeadRoom headRoom =>
      revert h
      rw [run, call, ikcpSetHeadRoom]
      split
      · exact fun _ => rfl
      · exact fun h => absurd rfl h

/-- In a control block that is sized, with an mtu that is a positive `int`, a call keeps it sized
exactly when the payload it asks for fits. -/
theorem sized_run_iff {kcp : IKCPCB} (hsized : kcp.Sized) (hmtu : kcp.mtu.toNat < 2 ^ 31)
    (c : SizingCall) :
    ((c.run kcp).Sized ↔ c.Fits kcp) ∧ (c.run kcp).mtu.toNat < 2 ^ 31 := by
  obtain ⟨hmss, hsum⟩ := hsized
  cases c with
  | setmtu mtu allocated =>
      have htop : mtu.toInt < 2 ^ 31 := mtu.toInt_lt
      have hroom : kcp.headRoom.toNat < 2 ^ 31 := by omega
      rcases ikcpSetmtu_spec hroom mtu with ⟨hguard, -, hkept⟩ | ⟨hguard, hzero, hhead, hset, hpay⟩
      · have hrun : (setmtu mtu allocated).run kcp = kcp := by
          rw [run, call]
          split
          · rfl
          · exact hkept
        rw [hrun]
        exact ⟨⟨fun _ _ h50 hle => absurd ⟨h50, hle⟩ hguard, fun _ => ⟨hmss, hsum⟩⟩, hmtu⟩
      · cases allocated with
        | false =>
            have hrun : (setmtu mtu false).run kcp = kcp := by
              rw [run, call, if_pos ⟨hzero, Bool.false_ne_true⟩]
            rw [hrun]
            exact ⟨⟨fun _ h => absurd h Bool.false_ne_true, fun _ => ⟨hmss, hsum⟩⟩, hmtu⟩
        | true =>
            have hrun : (setmtu mtu true).run kcp = (ikcpSetmtu kcp mtu).2 := by
              rw [run, call, if_neg fun h => h.2 rfl]
            have hnat : (ikcpSetmtu kcp mtu).2.mss.toNat =
                (2 ^ 32 - ikcpOverhead + (2 ^ 32 - kcp.headRoom.toNat +
                  (ikcpSetmtu kcp mtu).2.mtu.toNat) % 2 ^ 32) % 2 ^ 32 := by
              rw [hpay, UInt32.toNat_sub, UInt32.toNat_sub]
              rfl
            rw [hrun]
            refine ⟨⟨?_, ?_⟩, by omega⟩
            · rintro ⟨hone, hfit⟩ - - -
              rw [hhead] at hfit
              omega
            · intro hfits
              have hlt := hfits rfl hguard.1 hguard.2
              rw [IKCPCB.Sized, hhead]
              omega
  | setHeadRoom headRoom =>
      rw [run, call, ikcpSetHeadRoom]
      split
      · exact ⟨⟨fun _ => trivial, fun _ => ⟨hmss, hsum⟩⟩, hmtu⟩
      · rename_i hge
        have hlt : headRoom < kcp.mss := UInt32.not_le.mp hge
        have hsub := UInt32.toNat_sub_of_le _ _ (UInt32.le_of_lt hlt)
        rw [UInt32.lt_iff_toNat_lt] at hlt
        refine ⟨⟨fun _ => trivial, fun _ => ?_⟩, hmtu⟩
        constructor
        · change 1 ≤ (kcp.mss - headRoom).toNat
          omega
        · change headRoom.toNat + ikcpOverhead + (kcp.mss - headRoom).toNat ≤ kcp.mtu.toNat
          omega

end SizingCall

/-- Along any calls on a fresh control block, head room, header and payload fit into the mtu after
every call and rejected calls change nothing, exactly when every accepted `ikcp_setmtu` asks for
more than head room and header. -/
theorem sizing_consistent_iff (conv : UInt32) (calls : List SizingCall) :
    ((ikcpCreate conv).Sized ∧ Along SizingCall.run (fun kcp c => (c.run kcp).Sized ∧
      ((c.call kcp).1 ≠ 0 → c.run kcp = kcp)) (ikcpCreate conv) calls) ↔
    Along SizingCall.run (fun kcp c => c.Fits kcp) (ikcpCreate conv) calls := by
  have hiff (kcp : IKCPCB) (c : SizingCall) (h : kcp.Sized ∧ kcp.mtu.toNat < 2 ^ 31) :
      ((c.run kcp).Sized ∧ ((c.call kcp).1 ≠ 0 → c.run kcp = kcp)) ↔ c.Fits kcp := by
    rw [and_iff_left SizingCall.run_of_rejected]
    exact (SizingCall.sized_run_iff h.1 h.2 c).1
  have hinit : (ikcpCreate conv).Sized ∧ (ikcpCreate conv).mtu.toNat < 2 ^ 31 :=
    ⟨sized_ikcpCreate conv, (by decide : ikcpMtuDef.toNat < 2 ^ 31)⟩
  rw [and_iff_right hinit.1]
  exact Along.congr_of_invariant hiff
    (fun kcp c hkeep h => ⟨hkeep.1, (SizingCall.sized_run_iff h.1 h.2 c).2⟩) hinit calls

/-- A head room of 100 leaves no room for the segment header in an mtu of 110. -/
theorem not_sized_setmtu : ¬ ([SizingCall.setHeadRoom 100, .setmtu 110 true].foldl
    SizingCall.run (ikcpCreate 1)).Sized := by
  decide

end CodeBlocks.Kcp
