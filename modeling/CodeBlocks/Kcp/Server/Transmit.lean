import CodeBlocks.Kcp.Server.Server
import CodeBlocks.Kcp.Session.Flushes

/-!
# The send queue of a thread

Every loop thread of the server gathers the datagrams of its sessions in slots
that are written over again and again, and hands them to the kernel in batches.
What a slot holds is read back with the lengths that were written last, so a
shorter packet or address never brings anything of an earlier one along.
-/

namespace CodeBlocks.Kcp

abbrev kNumPacketsPerSend : Nat := 32

/-- `sizeof(struct sockaddr_in)`. -/
abbrev kSockaddrInSize : Nat := 16

/-- `sizeof(struct sockaddr_in6)`. -/
abbrev kSockaddrIn6Size : Nat := 28

/-- `sizeof(struct sockaddr_storage)`. -/
abbrev kSockaddrStorageSize : Nat := 128

abbrev AF_INET : UInt16 := 2

abbrev AF_INET6 : UInt16 := 10

/-- What an address answers to `family` and `getSockAddr`: the bytes are those of the union of
both kinds of socket addresses. -/
structure SockAddr where
  family : UInt16
  bytes : List UInt8
  length_eq : bytes.length = kSockaddrIn6Size
  deriving DecidableEq, Repr

/-- `ToSockAddr`: the `addr_len` bytes that it sets, or nothing where it returns false. -/
def SockAddr.toSockAddr (addr : SockAddr) :
    Option {name : List UInt8 // name.length ≤ kSockaddrStorageSize} :=
  if addr.family = AF_INET then
    some ⟨addr.bytes.take kSockaddrInSize, (List.length_take_le _ _).trans (by decide)⟩
  else if addr.family = AF_INET6 then
    some ⟨addr.bytes.take kSockaddrIn6Size, (List.length_take_le _ _).trans (by decide)⟩
  else none

/-- `memcpy`. -/
def memcpy (dst src : List UInt8) : List UInt8 := src ++ dst.drop src.length

/-- Copying into a slot keeps its size. -/
theorem length_memcpy {dst src : List UInt8} (h : src.length ≤ dst.length) :
    (memcpy dst src).length = dst.length := by
  rw [memcpy, List.length_append, List.length_drop]
  omega

/-- What was copied stands at the front of the slot. -/
@[simp] theorem take_memcpy (dst src : List UInt8) : (memcpy dst src).take src.length = src :=
  List.take_left

/-- `RawPacket` with the header that points to it: a buffer and a name of fixed sizes, and how
much of them is in use. -/
structure RawPacket where
  buf : List UInt8 := List.replicate (kMaxPacketSize + 1) 0
  iovLen : Nat := kMaxPacketSize + 1
  addr : List UInt8 := List.replicate kSockaddrStorageSize 0
  msgNamelen : Nat := kSockaddrStorageSize
  buf_length : buf.length = kMaxPacketSize + 1 := by
    first | exact List.length_replicate | assumption
  addr_length : addr.length = kSockaddrStorageSize := by
    first | exact List.length_replicate | assumption

/-- A datagram as the kernel reads it from a slot. -/
structure Datagram where
  bytes : List UInt8
  name : List UInt8
  deriving DecidableEq, Repr

namespace RawPacket

/-- What the kernel reads. -/
def datagram (pkt : RawPacket) : Datagram :=
  { bytes := pkt.buf.take pkt.iovLen, name := pkt.addr.take pkt.msgNamelen }

/-- The slot with a packet and an address written over it. -/
def store (pkt : RawPacket) (packet name : List UInt8) (hpacket : packet.length ≤ kMaxPacketSize)
    (hname : name.length ≤ kSockaddrStorageSize) : RawPacket where
  buf := memcpy pkt.buf packet
  iovLen := packet.length
  addr := memcpy pkt.addr name
  msgNamelen := name.length
  buf_length := by
    have hlen := pkt.buf_length
    rw [length_memcpy (by omega), hlen]
  addr_length := by
    have hlen := pkt.addr_length
    rw [length_memcpy (by omega), hlen]

/-- Nothing of what was in the slot is left. -/
@[simp] theorem datagram_store (pkt : RawPacket) (packet name : List UInt8)
    (hpacket : packet.length ≤ kMaxPacketSize) (hname : name.length ≤ kSockaddrStorageSize) :
    (pkt.store packet name hpacket hname).datagram = { bytes := packet, name := name } := by
  simp [datagram, store]

end RawPacket

/-- `ThreadData`: the slots and how many of them are taken. -/
structure ThreadData where
  rawPackets : List RawPacket := List.replicate kNumPacketsPerSend {}
  numPackets : Nat := 0
  length_eq : rawPackets.length = kNumPacketsPerSend := by
    first | exact List.length_replicate | assumption

/-- What a thread does to its socket, and the assertions that fail. -/
inductive TxEffect where
  | sendMmsg (batch : List Datagram)
  | assertFailed
  deriving DecidableEq, Repr

/-- A call on a thread. -/
inductive TxCall where
  | appendPacket (packet : List UInt8) (address : SockAddr)
  | flushTxQueue
  deriving DecidableEq, Repr

namespace ThreadData

/-- The datagrams that are not handed over yet. -/
def queued (t : ThreadData) : List Datagram :=
  (t.rawPackets.take t.numPackets).map RawPacket.datagram

/-- `FlushTxQueue`; what does not fit into the kernel is given up. -/
def flushTxQueue (t : ThreadData) : ThreadData × List TxEffect :=
  if t.numPackets = 0 then (t, [])
  else
    let asserts := if t.numPackets ≤ kNumPacketsPerSend then [] else [.assertFailed]
    ({ t with numPackets := 0 }, asserts ++ [.sendMmsg t.queued])

/-- The end of `AppendPacket`: a slot is written and counted. -/
def store (t : ThreadData) (index : Fin t.rawPackets.length) (packet name : List UInt8)
    (hpacket : packet.length ≤ kMaxPacketSize) (hname : name.length ≤ kSockaddrStorageSize) :
    ThreadData where
  rawPackets := t.rawPackets.set index ((t.rawPackets.get index).store packet name hpacket hname)
  numPackets := t.numPackets + 1
  length_eq := by rw [List.length_set, t.length_eq]

/-- `AppendPacket`; where its assertion fails, the code would write behind the slots. -/
def appendPacket (t : ThreadData) (packet : List UInt8) (address : SockAddr) :
    ThreadData × List TxEffect :=
  if hpacket : packet.length ≤ kMaxPacketSize then
    if hindex : t.numPackets < t.rawPackets.length then
      match address.toSockAddr with
      | none => (t, [])
      | some ⟨name, hname⟩ =>
        let t := t.store ⟨t.numPackets, hindex⟩ packet name hpacket hname
        if t.numPackets ≥ kNumPacketsPerSend then t.flushTxQueue else (t, [])
    else (t, [.assertFailed])
  else (t, [])

/-- The thread after a call, and the effects. -/
def call (t : ThreadData) : TxCall → ThreadData × List TxEffect
  | .appendPacket packet address => t.appendPacket packet address
  | .flushTxQueue => t.flushTxQueue

/-- The thread after some calls, and the effects. -/
def calls (t : ThreadData) : List TxCall → ThreadData × List TxEffect
  | [] => (t, [])
  | c :: cs =>
    let (t, effects) := t.call c
    let (t, later) := calls t cs
    (t, effects ++ later)

end ThreadData

/-- The datagrams handed over, batch by batch. -/
def TxEffect.sent (effects : List TxEffect) : List Datagram :=
  effects.flatMap fun
    | .sendMmsg batch => batch
    | .assertFailed => []

namespace ThreadData

end ThreadData

/-- A session as `InitializeSession` sets it up, with the flush of the thread's queue among its
callbacks. -/
structure ServerSession where
  session : KCPSession
  flushes : session.callbacks.flushTxQueue = true

namespace ServerSession

/-- The session after a task. -/
def run (s : ServerSession) (task : SessionTask) : ServerSession where
  session := task.run s.session
  flushes := by rw [(Settles.run s.session task).callbacks, s.flushes]

variable (sockAddr : InetAddress → SockAddr) (adler32 : UInt32 → List UInt8 → UInt32)

end ServerSession

end CodeBlocks.Kcp
