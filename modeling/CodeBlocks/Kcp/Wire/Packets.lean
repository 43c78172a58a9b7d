import CodeBlocks.Core.Bytes

/-!
# Public headers

The nine-byte header of `kcp_packets.cc` in front of every datagram: a checksum
over the bytes behind it, the packet type and the session id. The checksum
function is a routine of zlib and stays a parameter, called with the start value
one. A received packet carries its read position together with the fact that it
lies inside the data.
-/

namespace CodeBlocks.Kcp

open Bytes

/-- `KCPPublicHeader::kPublicHeaderLength`. -/
abbrev kPublicHeaderLength : Nat := 9

/-- `KCPReceivedPacketType`. -/
inductive KCPReceivedPacketType where
  | syn
  | ack
  | rst
  | ping
  | pong
  | data
  deriving DecidableEq, Repr

/-- The byte that stands for a packet type. -/
def KCPReceivedPacketType.code : KCPReceivedPacketType → UInt8
  | .syn => 0
  | .ack => 1
  | .rst => 2
  | .ping => 3
  | .pong => 4
  | .data => 5

/-- The cases of a `switch` over the packet type byte; `none` is its default. -/
def KCPReceivedPacketType.ofCode (code : UInt8) : Option KCPReceivedPacketType :=
  if code = 0 then some .syn
  else if code = 1 then some .ack
  else if code = 2 then some .rst
  else if code = 3 then some .ping
  else if code = 4 then some .pong
  else if code = 5 then some .data
  else none

/-- The code of a type is read back. -/
@[simp] theorem KCPReceivedPacketType.ofCode_code (type : KCPReceivedPacketType) :
    ofCode type.code = some type := by
  cases type <;> rfl

/-- A type is read from its own code only. -/
theorem KCPReceivedPacketType.code_of_ofCode {code : UInt8} {type : KCPReceivedPacketType}
    (h : ofCode code = some type) : code = type.code := by
  simp only [ofCode] at h
  repeat' split at h
  all_goals
    cases h
    try assumption

/-- `KCPPublicHeader`. -/
structure KCPPublicHeader where
  checksum : UInt32 := 0
  packetType : UInt8 := 0
  sessionId : UInt32 := 0
  deriving DecidableEq, Repr

/-- `KCPPublicHeader::ReadFrom`. -/
def KCPPublicHeader.readFrom (buf : List UInt8) : Option KCPPublicHeader :=
  if buf.length < kPublicHeaderLength then none
  else
    let (checksum, buf) := get32 buf
    let (packetType, buf) := get8 buf
    let (sessionId, _) := get32 buf
    some { checksum, packetType, sessionId }

/-- `KCPPublicHeader::WriteTo`; what follows the header in the buffer stays. -/
def KCPPublicHeader.writeTo (header : KCPPublicHeader) (buf : List UInt8) :
    Option (List UInt8) :=
  if buf.length < kPublicHeaderLength then none
  else
    some (put32 header.checksum ++ [header.packetType] ++ put32 header.sessionId ++
      buf.drop kPublicHeaderLength)

/-- `KCPPublicHeader::WriteChecksum`. -/
def KCPPublicHeader.writeChecksum (header : KCPPublicHeader) (buf : List UInt8) :
    Option (List UInt8) :=
  if buf.length < 4 then none else some (put32 header.checksum ++ buf.drop 4)

/-- `KCPReceivedPacket`: the data and a position inside it. -/
structure KCPReceivedPacket where
  data : List UInt8
  pos : Nat := 0
  pos_le : pos ≤ data.length := by first | exact Nat.zero_le _ | assumption
  deriving DecidableEq, Repr

namespace KCPReceivedPacket

/-- `KCPReceivedPacket::ErrorCode` without `SUCCESS`. -/
inductive ErrorCode where
  | invalidLength
  | unableReadChecksum
  | unableReadPacketType
  | unableReadSessionId
  | invalidChecksum
  deriving DecidableEq, Repr

def length (packet : KCPReceivedPacket) : Nat := packet.data.length

/-- `RemainingBytes`. -/
def remainingBytes (packet : KCPReceivedPacket) : Nat := packet.data.length - packet.pos

/-- `RemainingData`, up to the end of the packet. -/
def remainingData (packet : KCPReceivedPacket) : List UInt8 := packet.data.drop packet.pos

/-- `CanRead`. -/
def canRead (packet : KCPReceivedPacket) (bytes : Nat) : Bool :=
  decide (bytes ≤ packet.data.length - packet.pos)

/-- `ReadBytes`. -/
def readBytes (packet : KCPReceivedPacket) (size : Nat) :
    Option (List UInt8 × KCPReceivedPacket) :=
  if h : size ≤ packet.data.length - packet.pos then
    some (packet.remainingData.take size,
      { data := packet.data, pos := packet.pos + size,
        pos_le := Nat.add_le_of_le_sub' packet.pos_le h })
  else none

/-- `ReadUInt8`. -/
def readUInt8 (packet : KCPReceivedPacket) : Option (UInt8 × KCPReceivedPacket) :=
  (packet.readBytes 1).map fun (bytes, packet) => ((get8 bytes).1, packet)

/-- `ReadUInt32`. -/
def readUInt32 (packet : KCPReceivedPacket) : Option (UInt32 × KCPReceivedPacket) :=
  (packet.readBytes 4).map fun (bytes, packet) => ((get32 bytes).1, packet)

/-- `ReadPublicHeader`: an error or the header, and the packet behind what was read. -/
def readPublicHeader (adler32 : UInt32 → List UInt8 → UInt32) (packet : KCPReceivedPacket) :
    Except ErrorCode KCPPublicHeader × KCPReceivedPacket :=
  if !packet.canRead kPublicHeaderLength then (.error .invalidLength, packet)
  else
    match packet.readUInt32 with
    | none => (.error .unableReadChecksum, packet)
    | some (checksum, packet) =>
      match packet.readUInt8 with
      | none => (.error .unableReadPacketType, packet)
      | some (packetType, packet) =>
        match packet.readUInt32 with
        | none => (.error .unableReadSessionId, packet)
        | some (sessionId, packet) =>
          if checksum ≠ adler32 1 (packet.data.drop 4) then (.error .invalidChecksum, packet)
          else (.ok { checksum, packetType, sessionId }, packet)

end KCPReceivedPacket

/-- `KCPPendingSendPacket::ErrorCode` without `SUCCESS`. -/
inductive KCPPendingSendPacket.ErrorCode where
  | unableWritePublicHeader
  | unableWriteChecksum
  deriving DecidableEq, Repr

/-- `KCPPendingSendPacket::WritePublicHeader` over the bytes of the packet. -/
def KCPPendingSendPacket.writePublicHeader (adler32 : UInt32 → List UInt8 → UInt32)
    (data : List UInt8) (packetType : UInt8) (sessionId : UInt32) :
    Except KCPPendingSendPacket.ErrorCode (List UInt8) :=
  let header : KCPPublicHeader := { packetType, sessionId }
  match header.writeTo data with
  | none => .error .unableWritePublicHeader
  | some data =>
    let header := { header with checksum := adler32 1 (data.drop 4) }
    match header.writeChecksum data with
    | none => .error .unableWriteChecksum
    | some data => .ok data

/-- `adler32` of zlib, byte by byte, for runs on concrete packets. -/
def Zlib.adler32 (adler : UInt32) (buf : List UInt8) : UInt32 :=
  let sums := buf.foldl (fun (a, b) byte =>
    ((a + byte.toNat) % 65521, (b + (a + byte.toNat) % 65521) % 65521))
    (adler.toNat % 65536, adler.toNat / 65536)
  UInt32.ofNat (sums.1 + 65536 * sums.2)

/-- The bytes of a packet with a body behind its header. -/
def datagram (packetType : KCPReceivedPacketType) (sessionId : UInt32) (body : List UInt8) :
    List UInt8 :=
  match KCPPendingSendPacket.writePublicHeader Zlib.adler32
    (List.replicate kPublicHeaderLength 0 ++ body) packetType.code sessionId with
  | .ok data => data
  | .error _ => []

section Header

variable (adler32 : UInt32 → List UInt8 → UInt32)

namespace KCPReceivedPacket

/-- A number in the middle of the data. -/
theorem readUInt32_at {data : List UInt8} {pos : Nat} (hp : pos ≤ data.length)
    (h : pos + 4 ≤ data.length) :
    readUInt32 { data := data, pos := pos, pos_le := hp } =
      some ((get32 (data.drop pos)).1, { data := data, pos := pos + 4, pos_le := h }) := by
  have hr : 4 ≤ data.length - pos := by omega
  have ht := get32_take (List.length_drop ▸ hr)
  simp only [readUInt32, readBytes, hr, dite_true, Option.map_some, remainingData, ht]

/-- A byte in the middle of the data. -/
theorem readUInt8_at {data : List UInt8} {pos : Nat} (hp : pos ≤ data.length)
    (h : pos + 1 ≤ data.length) :
    readUInt8 { data := data, pos := pos, pos_le := hp } =
      some ((get8 (data.drop pos)).1, { data := data, pos := pos + 1, pos_le := h }) := by
  have hr : 1 ≤ data.length - pos := by omega
  simp only [readUInt8, readBytes, hr, dite_true, Option.map_some, remainingData, get8_take]

end KCPReceivedPacket

/-- The three fields of a header stand at fixed places. -/
theorem readFrom_eq {data : List UInt8} (h : kPublicHeaderLength ≤ data.length) :
    KCPPublicHeader.readFrom data = some {
      checksum := (get32 data).1
      packetType := (get8 (data.drop 4)).1
      sessionId := (get32 (data.drop 5)).1 } := by
  have h9 : 9 ≤ data.length := h
  rw [KCPPublicHeader.readFrom, if_neg (Nat.not_lt.mpr h)]
  have h4 : 4 ≤ data.length := by omega
  simp only [get32_snd h4, get8_snd, List.drop_drop]

/-- Reading the header of a fresh packet: the fields are those of `ReadFrom`, and
nothing but a short packet or a wrong checksum is refused. -/
theorem readPublicHeader_fresh (data : List UInt8) :
    KCPReceivedPacket.readPublicHeader adler32 { data := data } =
      if h : data.length < kPublicHeaderLength then (.error .invalidLength, { data := data })
      else
        (match KCPPublicHeader.readFrom data with
          | none => .error .invalidLength
          | some header =>
            if header.checksum ≠ adler32 1 (data.drop 4) then .error .invalidChecksum
            else .ok header,
          { data := data, pos := kPublicHeaderLength, pos_le := Nat.not_lt.mp h }) := by
  by_cases h : data.length < kPublicHeaderLength
  · have hread : KCPReceivedPacket.canRead { data := data } kPublicHeaderLength = false := by
      simp only [KCPReceivedPacket.canRead, decide_eq_false_iff_not, Nat.sub_zero, Nat.not_le]
      exact h
    rw [dif_pos h, KCPReceivedPacket.readPublicHeader, hread]
    rfl
  · have h9 : 9 ≤ data.length := Nat.not_lt.mp h
    have hread : KCPReceivedPacket.canRead { data := data } kPublicHeaderLength = true := by
      simpa only [KCPReceivedPacket.canRead, decide_eq_true_eq, Nat.sub_zero] using h9
    rw [dif_neg h, KCPReceivedPacket.readPublicHeader, hread, readFrom_eq h9,
      KCPReceivedPacket.readUInt32_at (Nat.zero_le _) (by omega)]
    have h4 : 4 ≤ data.length := by omega
    have h5 : 5 ≤ data.length := by omega
    simp only [Bool.not_true, Bool.false_eq_true, ite_false, Nat.zero_add,
      KCPReceivedPacket.readUInt8_at h4 h5, KCPReceivedPacket.readUInt32_at h5 h9,
      List.drop_zero]
    split <;> rfl

/-- The header of a datagram that is read without an error, and the packet behind it. -/
def readDatagram (data : List UInt8) : Option (KCPPublicHeader × KCPReceivedPacket) :=
  match KCPReceivedPacket.readPublicHeader adler32 { data := data } with
  | (.error _, _) => none
  | (.ok header, packet) => some (header, packet)

/-- The packet type and the session id in a datagram that is read without an error. -/
def datagramKind (data : List UInt8) : Option (KCPReceivedPacketType × UInt32) :=
  (readDatagram adler32 data).bind fun (header, _) =>
    (KCPReceivedPacketType.ofCode header.packetType).map fun type => (type, header.sessionId)

/-- Behind a header that was read stand the bytes from the tenth on. -/
theorem readDatagram_remaining {data : List UInt8} {header : KCPPublicHeader}
    {packet : KCPReceivedPacket} (h : readDatagram adler32 data = some (header, packet)) :
    kPublicHeaderLength ≤ data.length ∧
      packet.remainingBytes = data.length - kPublicHeaderLength := by
  rw [readDatagram, readPublicHeader_fresh] at h
  by_cases hlen : data.length < kPublicHeaderLength
  · rw [dif_pos hlen] at h
    cases h
  · rw [dif_neg hlen] at h
    generalize (match KCPPublicHeader.readFrom data with
      | none => _
      | some header => _) = result at h
    cases result with
    | error code => cases h
    | ok header' =>
        obtain ⟨_, rfl⟩ := Prod.mk.inj (Option.some.inj h)
        exact ⟨Nat.not_lt.mp hlen, rfl⟩

/-- A datagram of a kind has a header that says so. -/
theorem datagramKind_eq_some {data : List UInt8} {type : KCPReceivedPacketType}
    {sessionId : UInt32} (h : datagramKind adler32 data = some (type, sessionId)) :
    ∃ header packet, readDatagram adler32 data = some (header, packet) ∧
      KCPReceivedPacketType.ofCode header.packetType = some type ∧
      header.sessionId = sessionId := by
  obtain ⟨⟨header, packet⟩, hread, hkind⟩ := Option.bind_eq_some_iff.mp h
  obtain ⟨type', htype, heq⟩ := Option.map_eq_some_iff.mp hkind
  obtain ⟨rfl, rfl⟩ := Prod.mk.inj heq
  exact ⟨header, packet, hread, htype, rfl⟩

/-- A datagram of no kind has no known type in its header. -/
theorem datagramKind_eq_none {data : List UInt8} (h : datagramKind adler32 data = none)
    {header : KCPPublicHeader} {packet : KCPReceivedPacket}
    (hread : readDatagram adler32 data = some (header, packet)) :
    KCPReceivedPacketType.ofCode header.packetType = none := by
  rw [datagramKind, hread, Option.bind_some, Option.map_eq_none_iff] at h
  exact h

/-- What `WritePublicHeader` leaves in a buffer that has room for a header. -/
theorem writePublicHeader_eq {data : List UInt8} (h : kPublicHeaderLength ≤ data.length)
    (packetType : UInt8) (sessionId : UInt32) :
    KCPPendingSendPacket.writePublicHeader adler32 data packetType sessionId =
      let body := packetType :: put32 sessionId ++ data.drop kPublicHeaderLength
      .ok (put32 (adler32 1 body) ++ body) := by
  have h9 : 9 ≤ data.length := h
  rw [KCPPendingSendPacket.writePublicHeader, KCPPublicHeader.writeTo,
    if_neg (Nat.not_lt.mpr h)]
  simp only [KCPPublicHeader.writeChecksum]
  rw [if_neg (by simp)]
  rfl

/-- A header in front of some bytes, with the checksum that `ReadPublicHeader` expects. -/
theorem readPublicHeader_written (packetType : UInt8) (sessionId : UInt32) (rest : List UInt8) :
    ∃ packet : KCPReceivedPacket,
      KCPReceivedPacket.readPublicHeader adler32
          { data := put32 (adler32 1 (packetType :: put32 sessionId ++ rest)) ++
              (packetType :: put32 sessionId ++ rest) } =
        (.ok { checksum := adler32 1 (packetType :: put32 sessionId ++ rest), packetType,
               sessionId }, packet) ∧
      packet.remainingData = rest := by
  generalize hc : adler32 1 (packetType :: put32 sessionId ++ rest) = checksum
  have hlen : ¬ (put32 checksum ++ (packetType :: put32 sessionId ++ rest)).length <
      kPublicHeaderLength := by
    simp [kPublicHeaderLength]
    omega
  have hfrom :
      KCPPublicHeader.readFrom (put32 checksum ++ (packetType :: put32 sessionId ++ rest)) =
        some { checksum, packetType, sessionId } := by
    rw [KCPPublicHeader.readFrom, if_neg hlen]
    simp only [get32_put32, List.cons_append, get8_cons]
  have hdrop : (put32 checksum ++ (packetType :: put32 sessionId ++ rest)).drop 4 =
      packetType :: put32 sessionId ++ rest := rfl
  refine ⟨⟨put32 checksum ++ (packetType :: put32 sessionId ++ rest), kPublicHeaderLength,
    Nat.not_lt.mp hlen⟩, ?_, rfl⟩
  rw [readPublicHeader_fresh, dif_neg hlen, hfrom]
  simp only [hdrop, hc, ne_eq, not_true_eq_false, ite_false]

/-- Reading what `WritePublicHeader` wrote succeeds and leaves exactly the bytes
behind the head room, whatever the head room held before. -/
theorem readPublicHeader_writePublicHeader {data : List UInt8}
    (h : kPublicHeaderLength ≤ data.length) (packetType : UInt8) (sessionId : UInt32) :
    ∃ written header packet,
      KCPPendingSendPacket.writePublicHeader adler32 data packetType sessionId = .ok written ∧
      written.length = data.length ∧
      KCPReceivedPacket.readPublicHeader adler32 { data := written } = (.ok header, packet) ∧
      header.packetType = packetType ∧ header.sessionId = sessionId ∧
      packet.remainingData = data.drop kPublicHeaderLength := by
  have h9 : 9 ≤ data.length := h
  obtain ⟨packet, hread, hrest⟩ := readPublicHeader_written adler32 packetType sessionId
    (data.drop kPublicHeaderLength)
  refine ⟨_, _, packet, writePublicHeader_eq adler32 h packetType sessionId, ?_, hread, rfl, rfl,
    hrest⟩
  simp [kPublicHeaderLength]
  omega

end Header

end CodeBlocks.Kcp
