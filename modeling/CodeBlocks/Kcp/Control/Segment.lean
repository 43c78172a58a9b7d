import CodeBlocks.Core.Serial
import CodeBlocks.Core.Bytes

/-!
# Segments and their wire format

The segment record of `ikcp.h`, the constants of `ikcp.c`, and the 24-byte
segment head that `ikcp_encode_seg` writes and the loop of `ikcp_input` reads.
The payload is a byte list, so that a segment's `len` is the length of its data
and cannot disagree with it.
-/

namespace CodeBlocks.Kcp

open Serial Bytes

/-- Bytes of an encoded segment head. -/
abbrev ikcpOverhead : Nat := 24

abbrev ikcpRtoNdl : UInt32 := 30
abbrev ikcpRtoMin : UInt32 := 100
abbrev ikcpRtoDef : UInt32 := 200
abbrev ikcpRtoMax : UInt32 := 60000
abbrev ikcpCmdPush : UInt32 := 81
abbrev ikcpCmdAck : UInt32 := 82
abbrev ikcpCmdWask : UInt32 := 83
abbrev ikcpCmdWins : UInt32 := 84
abbrev ikcpAskSend : UInt32 := 1
abbrev ikcpAskTell : UInt32 := 2
abbrev ikcpWndSnd : UInt32 := 32
abbrev ikcpWndRcv : UInt32 := 128
abbrev ikcpSndHghwat : UInt32 := 4
abbrev ikcpMtuDef : UInt32 := 1400
abbrev ikcpInterval : UInt32 := 100
abbrev ikcpDeadlink : UInt32 := 20
abbrev ikcpThreshInit : UInt32 := 2
abbrev ikcpThreshMin : UInt32 := 2
abbrev ikcpProbeInit : UInt32 := 7000
abbrev ikcpProbeLimit : UInt32 := 120000
abbrev ikcpFastackLimit : Int32 := 5

/-- `_itimediff`: the wrapped difference as a signed number. -/
abbrev itimediff (later earlier : UInt32) : Int := diff later earlier

def imin (a b : UInt32) : UInt32 := if a ≤ b then a else b

def imax (a b : UInt32) : UInt32 := if a ≥ b then a else b

def ibound (lower middle upper : UInt32) : UInt32 := imin (imax lower middle) upper

/-- `IKCPSEG`. Fields that `malloc` leaves unwritten start at zero; each is
written before it is read. -/
structure IKCPSEG where
  conv : UInt32 := 0
  cmd : UInt32 := 0
  frg : UInt32 := 0
  wnd : UInt32 := 0
  ts : UInt32 := 0
  sn : UInt32 := 0
  una : UInt32 := 0
  resendts : UInt32 := 0
  rto : UInt32 := 0
  fastack : UInt32 := 0
  xmit : UInt32 := 0
  data : List UInt8 := []
  deriving DecidableEq, Repr

/-- The 32-bit length field. -/
def IKCPSEG.len (seg : IKCPSEG) : UInt32 := UInt32.ofNat seg.data.length

/-- `ikcp_encode_seg`: the head only, the payload is copied by the caller. -/
def ikcpEncodeSeg (seg : IKCPSEG) : List UInt8 :=
  put32 seg.conv ++ [seg.cmd.toUInt8] ++ [seg.frg.toUInt8] ++ put16 seg.wnd.toUInt16 ++
    put32 seg.ts ++ put32 seg.sn ++ put32 seg.una ++ put32 seg.len

@[simp] theorem length_ikcpEncodeSeg (seg : IKCPSEG) :
    (ikcpEncodeSeg seg).length = ikcpOverhead := rfl

/-- The local variables that one turn of the loop in `ikcp_input` decodes. -/
structure SegHead where
  conv : UInt32
  cmd : UInt8
  frg : UInt8
  wnd : UInt16
  ts : UInt32
  sn : UInt32
  una : UInt32
  len : UInt32
  deriving DecidableEq, Repr

/-- The eight decode calls of `ikcp_input`, in order, and the bytes behind them. -/
def ikcpDecodeHead (data : List UInt8) : SegHead × List UInt8 :=
  let (conv, data) := get32 data
  let (cmd, data) := get8 data
  let (frg, data) := get8 data
  let (wnd, data) := get16 data
  let (ts, data) := get32 data
  let (sn, data) := get32 data
  let (una, data) := get32 data
  let (len, data) := get32 data
  (⟨conv, cmd, frg, wnd, ts, sn, una, len⟩, data)

/-- The commands that `ikcp_input` accepts. -/
def SegHead.knownCmd (head : SegHead) : Bool :=
  head.cmd.toUInt32 == ikcpCmdPush || head.cmd.toUInt32 == ikcpCmdAck ||
    head.cmd.toUInt32 == ikcpCmdWask || head.cmd.toUInt32 == ikcpCmdWins

/-- The checks of one turn of the loop in `ikcp_input`: an error code, or the
segment read and the bytes after its payload. -/
def ikcpReadSeg (conv : UInt32) (data : List UInt8) : Except Int (IKCPSEG × List UInt8) :=
  let (head, data) := ikcpDecodeHead data
  if head.conv ≠ conv then
    .error (-1)
  else if data.length < head.len.toNat ∨ head.len.toInt32 < 0 then
    .error (-2)
  else if !head.knownCmd then
    .error (-3)
  else
    .ok ({ conv := head.conv, cmd := head.cmd.toUInt32, frg := head.frg.toUInt32,
           wnd := head.wnd.toUInt32, ts := head.ts, sn := head.sn, una := head.una,
           data := data.take head.len.toNat }, data.drop head.len.toNat)

/-- The segment grammar of `ikcp_input`: the return code of its loop, the
segments accepted before it ends, and the bytes left over. The first argument
bounds the turns; every turn consumes a head, so the length of the data is enough. -/
def ikcpSegments : Nat → UInt32 → List UInt8 → Int × List IKCPSEG × List UInt8
  | 0, _, data => (0, [], data)
  | fuel + 1, conv, data =>
    if data.length < ikcpOverhead then (0, [], data)
    else
      match ikcpReadSeg conv data with
      | .error rc => (rc, [], data)
      | .ok (seg, rest) =>
        let (rc, segs, left) := ikcpSegments fuel conv rest
        (rc, seg :: segs, left)

/-- A segment head and payload as they stand in a datagram. -/
def IKCPSEG.wire (seg : IKCPSEG) : List UInt8 := ikcpEncodeSeg seg ++ seg.data

@[simp] theorem IKCPSEG.length_wire (seg : IKCPSEG) :
    seg.wire.length = ikcpOverhead + seg.data.length := by
  simp only [IKCPSEG.wire, List.length_append, length_ikcpEncodeSeg]

/-- What an endpoint with conversation number `conv` puts on the wire: the
fields fit the bytes they are written to and the command is a known one. -/
structure IKCPSEG.Sendable (conv : UInt32) (seg : IKCPSEG) : Prop where
  conv_eq : seg.conv = conv
  cmd_known : seg.cmd = ikcpCmdPush ∨ seg.cmd = ikcpCmdAck ∨ seg.cmd = ikcpCmdWask ∨
    seg.cmd = ikcpCmdWins
  frg_lt : seg.frg.toNat < 256
  data_lt : seg.data.length < 2 ^ 31

/-- The segment the peer reads: the window field is cut to 16 bits and the
sender's bookkeeping does not travel. -/
def IKCPSEG.received (seg : IKCPSEG) : IKCPSEG :=
  { conv := seg.conv, cmd := seg.cmd, frg := seg.frg, wnd := seg.wnd.toUInt16.toUInt32,
    ts := seg.ts, sn := seg.sn, una := seg.una, data := seg.data }

/-- Decoding an encoded head gives the truncated fields, whatever follows. -/
theorem ikcpDecodeHead_encode (seg : IKCPSEG) (rest : List UInt8) :
    ikcpDecodeHead (ikcpEncodeSeg seg ++ rest) =
      (⟨seg.conv, seg.cmd.toUInt8, seg.frg.toUInt8, seg.wnd.toUInt16, seg.ts, seg.sn,
        seg.una, seg.len⟩, rest) := by
  simp only [ikcpDecodeHead, ikcpEncodeSeg, List.append_assoc, get32_put32,
    List.cons_append, List.nil_append, get8_cons, get16_put16]

private theorem toUInt32_toUInt8 {x : UInt32} (h : x.toNat < 256) : x.toUInt8.toUInt32 = x := by
  apply UInt32.toNat_inj.mp
  rw [UInt8.toNat_toUInt32, UInt32.toNat_toUInt8, Nat.mod_eq_of_lt (by simpa using h)]

private theorem toNat_len {seg : IKCPSEG} (h : seg.data.length < 2 ^ 31) :
    seg.len.toNat = seg.data.length := by
  rw [IKCPSEG.len, UInt32.toNat_ofNat', Nat.mod_eq_of_lt (by omega)]

private theorem not_neg_len {seg : IKCPSEG} (h : seg.data.length < 2 ^ 31) :
    ¬ seg.len.toInt32 < 0 := by
  have hlen := toNat_len h
  rw [Int32.lt_iff_toInt_lt, Serial.toInt_toInt32_of_lt (by omega), Int32.toInt_zero]
  omega

/-- Reading an encoded segment returns it and leaves exactly what follows it. -/
theorem ikcpReadSeg_wire {conv : UInt32} {seg : IKCPSEG} (h : seg.Sendable conv)
    (rest : List UInt8) :
    ikcpReadSeg conv (seg.wire ++ rest) = .ok (seg.received, rest) := by
  have hcmd : seg.cmd.toUInt8.toUInt32 = seg.cmd := by
    rcases h.cmd_known with hc | hc | hc | hc <;> rw [hc] <;> rfl
  have hknown : SegHead.knownCmd ⟨seg.conv, seg.cmd.toUInt8, seg.frg.toUInt8,
      seg.wnd.toUInt16, seg.ts, seg.sn, seg.una, seg.len⟩ = true := by
    rcases h.cmd_known with hc | hc | hc | hc <;> simp [SegHead.knownCmd, hc]
  have hlen := toNat_len h.data_lt
  have hfit : ¬ ((seg.data ++ rest).length < seg.len.toNat ∨ seg.len.toInt32 < 0) := by
    rw [hlen, List.length_append]
    exact not_or.mpr ⟨by omega, not_neg_len h.data_lt⟩
  rw [ikcpReadSeg, IKCPSEG.wire, List.append_assoc, ikcpDecodeHead_encode]
  simp only [h.conv_eq, ne_eq, not_true_eq_false, ite_false, hfit]
  rw [← h.conv_eq, hknown, hlen]
  simp only [Bool.not_true, Bool.false_eq_true, ite_false, List.take_left, List.drop_left,
    hcmd, toUInt32_toUInt8 h.frg_lt, IKCPSEG.received]

/-- The grammar reads back a run of encoded segments with nothing left over. -/
theorem ikcpSegments_wire {conv : UInt32} (segs : List IKCPSEG)
    (h : ∀ seg ∈ segs, seg.Sendable conv) (fuel : Nat) (hf : segs.length ≤ fuel) :
    ikcpSegments fuel conv (segs.flatMap IKCPSEG.wire) =
      (0, segs.map IKCPSEG.received, []) := by
  induction segs generalizing fuel with
  | nil => cases fuel <;> rfl
  | cons seg segs ih =>
      obtain ⟨fuel, rfl⟩ : ∃ n, fuel = n + 1 := ⟨fuel - 1, by simp at hf; omega⟩
      have hr := ikcpReadSeg_wire (h seg List.mem_cons_self) (segs.flatMap IKCPSEG.wire)
      have hl : ¬ (seg.wire ++ segs.flatMap IKCPSEG.wire).length < ikcpOverhead := by
        rw [List.length_append, IKCPSEG.length_wire]
        omega
      rw [List.flatMap_cons, ikcpSegments, if_neg hl, hr]
      simp only [ih (fun s hs => h s (List.mem_cons_of_mem _ hs)) fuel
        (by simpa using hf), List.map_cons]

end CodeBlocks.Kcp
