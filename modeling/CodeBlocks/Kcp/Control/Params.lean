import CodeBlocks.Kcp.Control.Input
import CodeBlocks.Kcp.Control.Flush

/-!
# Session parameters and control-block runs

The parameter record of `KCPSession`, the part of `KCPSession::Initialize` that
configures the control block, and the calls that a configured control block
receives afterwards.
-/

namespace CodeBlocks.Kcp

/-- `KCPSession::Params`. -/
structure Params where
  sndWnd : Int32 := 64
  rcvWnd : Int32 := 128
  sndHghwat : Int32 := 10
  nodelay : Int32 := 0
  interval : Int32 := 100
  resend : Int32 := 0
  nocongestion : Int32 := 0
  mtu : Int32 := 512
  headRoom : Int32 := 0
  streamMode : Int32 := 0
  deriving DecidableEq, Repr

abbrev kMaxPacketSize : Nat := 1400

abbrev kDefaultMTUSize : Int32 := 1400

def kFastModeKCPParams : Params where
  sndWnd := 128
  rcvWnd := 128
  sndHghwat := 16
  nodelay := 1
  interval := 50
  resend := 3
  nocongestion := 1
  mtu := kDefaultMTUSize
  headRoom := 0
  streamMode := 0

/-- The control block that `KCPSession::Initialize` sets up, or nothing where it
returns false. The high-water mark is set from `snd_wnd`, as the source does. -/
def initializeControl (sessionId : UInt32) (params : Params) : Option IKCPCB :=
  let kcp := ikcpStream (ikcpCreate sessionId) params.streamMode
  let kcp := ikcpWndsize kcp params.sndWnd params.rcvWnd
  let (rv, kcp) := ikcpSetmtu kcp params.mtu
  if rv < 0 then none
  else
    let (rv, kcp) := ikcpSetHeadRoom kcp params.headRoom.toUInt32
    if rv < 0 then none
    else
      let kcp := ikcpSetSndHghwat kcp params.sndWnd.toUInt32
      some (ikcpNodelay kcp params.nodelay params.interval params.resend params.nocongestion)

/-- The calls into the control block. -/
inductive ControlCall where
  | send (data : List UInt8)
  | append (data : List UInt8)
  | input (data : List UInt8)
  | recv (len : Int32)
  | flush (current : UInt32)
  deriving DecidableEq, Repr

/-- The control block after one call, whatever the call returns. -/
def ControlCall.run (kcp : IKCPCB) : ControlCall → IKCPCB
  | .send data => (ikcpSend kcp data).2
  | .append data => (ikcpAppend kcp data).2
  | .input data => (ikcpInput kcp data).2
  | .recv len => (ikcpRecv kcp len).kcp
  | .flush current => (ikcpFlush kcp current).kcp

/-- A control block that `KCPSession::Initialize` configured with the given
arguments and that has since received any calls. -/
def IKCPCB.Reachable (sessionId : UInt32) (params : Params) (kcp : IKCPCB) : Prop :=
  ∃ (kcp₀ : IKCPCB) (calls : List ControlCall), initializeControl sessionId params = some kcp₀ ∧
    kcp = calls.foldl ControlCall.run kcp₀

/-- An invariant of every configuration and every call holds in every reachable state. -/
theorem IKCPCB.Reachable.invariant {sessionId : UInt32} {params : Params} {kcp : IKCPCB}
    (h : kcp.Reachable sessionId params) {Inv : IKCPCB → Prop}
    (hinit : ∀ kcp₀, initializeControl sessionId params = some kcp₀ → Inv kcp₀)
    (hcall : ∀ kcp call, Inv kcp → Inv (ControlCall.run kcp call)) : Inv kcp := by
  obtain ⟨kcp₀, calls, h₀, rfl⟩ := h
  exact List.foldlRecOn calls ControlCall.run (hinit kcp₀ h₀) fun kcp hk call _ => hcall kcp call hk

end CodeBlocks.Kcp
