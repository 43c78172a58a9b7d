import CodeBlocks.Kcp.Wire.Packets

/-!
# The header as an output argument

`ReadPublicHeader` fills a header of its caller, field by field, after its last
check. The nine bytes are written and read by three routines of their own;
here they are compared on whole byte strings, in both directions.
-/

namespace CodeBlocks.Kcp

open Bytes

section Header

variable (adler32 : UInt32 → List UInt8 → UInt32)

/-- `ReadPublicHeader` with the header it is given: the error, if there is one, the
header after the call and the packet behind what was read. -/
def KCPReceivedPacket.readPublicHeaderInto (packet : KCPReceivedPacket)
    (publicHeader : KCPPublicHeader) : Option ErrorCode × KCPPublicHeader × KCPReceivedPacket :=
  if !packet.canRead kPublicHeaderLength then (some .invalidLength, publicHeader, packet)
  else
    match packet.readUInt32 with
    | none => (some .unableReadChecksum, publicHeader, packet)
    | some (checksum, packet) =>
      match packet.readUInt8 with
      | none => (some .unableReadPacketType, publicHeader, packet)
      | some (packetType, packet) =>
        match packet.readUInt32 with
        | none => (some .unableReadSessionId, publicHeader, packet)
        | some (sessionId, packet) =>
          if checksum ≠ adler32 1 (packet.data.drop 4) then
            (some .invalidChecksum, publicHeader, packet)
          else
            let publicHeader := { publicHeader with checksum := checksum }
            let publicHeader := { publicHeader with packetType := packetType }
            let publicHeader := { publicHeader with sessionId := sessionId }
            (none, publicHeader, packet)

/-- The header is written where the packet is read without an error, and only there. -/
theorem readPublicHeaderInto_eq (packet : KCPReceivedPacket) (publicHeader : KCPPublicHeader) :
    packet.readPublicHeaderInto adler32 publicHeader =
      match packet.readPublicHeader adler32 with
      | (.error code, packet) => (some code, publicHeader, packet)
      | (.ok header, packet) => (none, header, packet) := by
  unfold KCPReceivedPacket.readPublicHeaderInto KCPReceivedPacket.readPublicHeader
  split
  · rfl
  cases packet.readUInt32 with
  | none => rfl
  | some read =>
      obtain ⟨checksum, packet⟩ := read
      simp only
      cases packet.readUInt8 with
      | none => rfl
      | some read =>
          obtain ⟨packetType, packet⟩ := read
          simp only
          cases packet.readUInt32 with
          | none => rfl
          | some read =>
              obtain ⟨sessionId, packet⟩ := read
              simp only
              split <;> rfl

/-- What `ReadPublicHeader` accepts begins with its header, and its checksum is that of the rest. -/
theorem readPublicHeader_ok {data : List UInt8} {header : KCPPublicHeader}
    {packet : KCPReceivedPacket}
    (h : KCPReceivedPacket.readPublicHeader adler32 { data := data } = (.ok header, packet)) :
    kPublicHeaderLength ≤ data.length ∧
      data.drop 4 = header.packetType :: put32 header.sessionId ++ data.drop kPublicHeaderLength ∧
      data = put32 (adler32 1 (data.drop 4)) ++ data.drop 4 := by
  rw [readPublicHeader_fresh] at h
  by_cases hlen : data.length < kPublicHeaderLength
  · rw [dif_pos hlen] at h
    cases (Prod.mk.inj h).1
  · have h9 : 9 ≤ data.length := Nat.not_lt.mp hlen
    rw [dif_neg hlen, readFrom_eq h9] at h
    obtain ⟨hheader, -⟩ := Prod.mk.inj h
    simp only at hheader
    split at hheader
    · cases hheader
    rename_i hsum
    cases hheader
    have htype := @get8_cons_drop (data.drop 4) (by rw [List.length_drop]; omega)
    have hid := @put32_get32 (data.drop 5) (by rw [List.length_drop]; omega)
    rw [List.drop_drop] at htype hid
    refine ⟨h9, ?_, ?_⟩
    · rw [List.cons_append, hid, htype]
    · rw [← not_not.mp hsum, put32_get32 (by omega)]

/-- Writing a public header and reading it undo each other, and a packet that is too short or
carries another checksum is refused with the caller's header as it was. -/
theorem publicHeader_roundTrip (data : List UInt8) :
    (kPublicHeaderLength ≤ data.length → ∀ (packetType : UInt8) (sessionId : UInt32),
      ∃ written header packet,
        KCPPendingSendPacket.writePublicHeader adler32 data packetType sessionId = .ok written ∧
        (∀ publicHeader, KCPReceivedPacket.readPublicHeaderInto adler32 { data := written }
          publicHeader = (none, header, packet)) ∧
        header.packetType = packetType ∧ header.sessionId = sessionId ∧
        packet.remainingData = data.drop kPublicHeaderLength ∧
        KCPPublicHeader.readFrom written = some header) ∧
    (∀ publicHeader header packet,
      KCPReceivedPacket.readPublicHeaderInto adler32 { data := data } publicHeader =
        (none, header, packet) →
      KCPPendingSendPacket.writePublicHeader adler32 data header.packetType header.sessionId =
        .ok data) ∧
    (∀ publicHeader,
      data.length < kPublicHeaderLength ∨ (get32 data).1 ≠ adler32 1 (data.drop 4) →
      ∃ code packet, KCPReceivedPacket.readPublicHeaderInto adler32 { data := data }
        publicHeader = (some code, publicHeader, packet)) := by
  refine ⟨?_, ?_, ?_⟩
  · intro hlen packetType sessionId
    obtain ⟨written, header, packet, hwrite, hlength, hread, htype, hid, hrest⟩ :=
      readPublicHeader_writePublicHeader adler32 hlen packetType sessionId
    refine ⟨written, header, packet, hwrite, ?_, htype, hid, hrest, ?_⟩
    · intro publicHeader
      rw [readPublicHeaderInto_eq, hread]
    · have h9 : ¬ written.length < kPublicHeaderLength := by omega
      rw [readPublicHeader_fresh, dif_neg h9, readFrom_eq (Nat.not_lt.mp h9)] at hread
      obtain ⟨hheader, -⟩ := Prod.mk.inj hread
      simp only at hheader
      split at hheader
      · cases hheader
      · rw [readFrom_eq (Nat.not_lt.mp h9)]
        exact congrArg some (Except.ok.inj hheader)
  · intro publicHeader header packet hread
    rw [readPublicHeaderInto_eq] at hread
    have hok : KCPReceivedPacket.readPublicHeader adler32 { data := data } =
        (.ok header, packet) := by
      generalize KCPReceivedPacket.readPublicHeader adler32 { data := data } = result at hread
      obtain ⟨code | header', packet'⟩ := result
      · cases (Prod.mk.inj hread).1
      · cases hread
        rfl
    obtain ⟨hlen, hbody, hdata⟩ := readPublicHeader_ok adler32 hok
    rw [writePublicHeader_eq adler32 hlen]
    simp only
    rw [← hbody, ← hdata]
  · rintro publicHeader hbad
    rw [readPublicHeaderInto_eq, readPublicHeader_fresh]
    by_cases hlen : data.length < kPublicHeaderLength
    · rw [dif_pos hlen]
      exact ⟨_, _, rfl⟩
    · have hsum := hbad.resolve_left hlen
      rw [dif_neg hlen, readFrom_eq (Nat.not_lt.mp hlen)]
      simp only [if_pos hsum]
      exact ⟨_, _, rfl⟩

end Header

end CodeBlocks.Kcp
