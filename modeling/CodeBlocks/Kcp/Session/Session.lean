import Mathlib.Algebra.GroupWithZero.Nat
import CodeBlocks.Kcp.Control.Params
import CodeBlocks.Kcp.Wire.Packets

/-!
# Sessions

`KCPSession` as its event loop runs it: one control block, a closed flag, and
the calls that the loop makes. Clock readings are arguments. What a session does
to the outside is appended to its event list; a failed assertion is an event as
well, after which the code runs on as a build without assertions does. The user's
callbacks may write and close: every callback run takes the list of calls it
makes, so that all behaviours of a user are covered. Writes and closes made by
the callback for a session that went down find it closed, and are the same as
calls made right after it.
-/

namespace CodeBlocks.Kcp

/-- `muduo::net::InetAddress`, which this code reads through its text form only. -/
structure InetAddress where
  toIpPort : String
  deriving DecidableEq, Repr

/-- Which of the callbacks of a session are set. -/
structure SessionCallbacks where
  connection : Bool := true
  message : Bool := true
  writeComplete : Bool := true
  highWaterMark : Bool := true
  flushTxQueue : Bool := true
  deriving DecidableEq, Repr

/-- What a session does, in order. `written` records a call of `Write` with its
bytes, `assigned` how many sequence numbers a flush gave out, and `output` the
bytes behind the head room of a datagram; the last three name tasks and timers
that are queued in the loop. -/
inductive SessionEvent where
  | connection (connected : Bool)
  | message (bytes : List UInt8)
  | written (data : List UInt8)
  | assigned (count : Nat)
  | output (body : List UInt8) (address : InetAddress)
  | flushTxQueue
  | assertFailed
  | writeComplete
  | highWaterMark (waitsnd : UInt32)
  | stateTimer (waitMs : UInt32)
  deriving DecidableEq, Repr

/-- `KCPSession`. -/
structure KCPSession where
  kcp : IKCPCB
  sessionId : UInt32
  peerAddress : InetAddress
  callbacks : SessionCallbacks
  closed : Bool := false
  events : List SessionEvent := []
  deriving DecidableEq, Repr

/-- The parameters that both endpoints give to their sessions. -/
def sessionParams : Params :=
  { kFastModeKCPParams with headRoom := Int32.ofNat kPublicHeaderLength }

/-- A call that a user makes from the loop, with the clock reading it sees. -/
inductive UserCall where
  | write (data : List UInt8) (currentMs : UInt32)
  | close (lastFlush : Bool) (currentMs : UInt32)
  deriving DecidableEq, Repr

namespace KCPSession

/-- One more event. -/
def log (s : KCPSession) (event : SessionEvent) : KCPSession :=
  { s with events := s.events ++ [event] }

/-- Another control block. -/
def setKcp (s : KCPSession) (kcp : IKCPCB) : KCPSession := { s with kcp := kcp }

/-- `ikcp_flush` with the output callback of the session. -/
def flush (s : KCPSession) (currentMs : UInt32) : KCPSession :=
  let result := ikcpFlush s.kcp currentMs
  { s with
    kcp := result.kcp
    events := s.events ++ .assigned (result.kcp.sndNxt - s.kcp.sndNxt).toNat ::
      result.sent.map (.output · s.peerAddress) }

/-- `FlushTxQueue`. -/
def flushTxQueue (s : KCPSession) : KCPSession :=
  if s.callbacks.flushTxQueue then s.log .flushTxQueue else s

/-- `OnConnectionEvent`. -/
def onConnectionEvent (s : KCPSession) (connected : Bool) : KCPSession :=
  if s.callbacks.connection then s.log (.connection connected) else s

/-- `Close`. -/
def close (s : KCPSession) (lastFlush : Bool) (currentMs : UInt32) : KCPSession :=
  if s.closed then s
  else
    let s := { s with closed := true }
    let s := if lastFlush then (s.flush currentMs).flushTxQueue else s
    s.onConnectionEvent false

/-- `UpdateConnectionState`, run by its timer. -/
def updateConnectionState (s : KCPSession) (currentMs : UInt32) : KCPSession :=
  if s.closed then s
  else if !ikcpIsAlive s.kcp then s.close false currentMs
  else
    (s.flush currentMs).flushTxQueue.log (.stateTimer (ikcpFlush s.kcp currentMs).waitTime)

/-- The part of `WriteInLoopThread` that sends what the window admits, and the
number of bytes it took. -/
def writeWindow (s : KCPSession) (data : List UInt8) (currentMs : UInt32) : KCPSession × Nat :=
  if ikcpNeedDrain s.kcp then (s, 0)
  else
    let bytesCanWrite := min (ikcpAvailableWndInBytes s.kcp).toNat data.length
    if bytesCanWrite > 0 then
      let bytesCanWriteToWire := ikcpAvailableSndwndInBytes s.kcp
      let (result, kcp) := ikcpSend s.kcp (data.take bytesCanWrite)
      let s := s.setKcp kcp
      if result = 0 then
        let s := if bytesCanWriteToWire > 0 then (s.flush currentMs).flushTxQueue else s
        let bytesRemaining := data.length - bytesCanWrite
        (if bytesRemaining = 0 ∧ s.callbacks.writeComplete then s.log .writeComplete else s,
          bytesCanWrite)
      else (s.log .assertFailed, 0)
    else (s, 0)

/-- The part of `WriteInLoopThread` that appends the remaining bytes. -/
def writeRemaining (s : KCPSession) (data : List UInt8) (reachSndHghwatBefore : Bool) :
    KCPSession :=
  if data.length > 0 then
    let (result, kcp) := ikcpAppend s.kcp data
    let s := s.setKcp kcp
    if result = 0 then
      if !reachSndHghwatBefore ∧ ikcpReachSndHghwat s.kcp ∧ s.callbacks.highWaterMark then
        s.log (.highWaterMark (ikcpWaitsnd s.kcp))
      else s
    else s.log .assertFailed
  else s

/-- `WriteInLoopThread`. -/
def writeInLoopThread (s : KCPSession) (data : List UInt8) (currentMs : UInt32) : KCPSession :=
  let s := s.log (.written data)
  if s.closed then s
  else
    let reachSndHghwatBefore := ikcpReachSndHghwat s.kcp
    let (s, bytesWrite) := s.writeWindow data currentMs
    s.writeRemaining (data.drop bytesWrite) reachSndHghwatBefore

/-- A user's call. -/
def call (s : KCPSession) : UserCall → KCPSession
  | .write data currentMs => s.writeInLoopThread data currentMs
  | .close lastFlush currentMs => s.close lastFlush currentMs

/-- The call of `ikcp_recv` in `OnReadEvent`, and the bytes handed to the message callback. -/
def receive (s : KCPSession) (bytesCanRead : Int) : KCPSession :=
  let result := ikcpRecv s.kcp (Int32.ofInt bytesCanRead)
  let s := s.setKcp result.kcp
  let s := if result.asserted then s else s.log .assertFailed
  if result.rc > 0 ∧ s.callbacks.message then s.log (.message result.bytes) else s

/-- `OnReadEvent`; the message callback makes the given calls. -/
def onReadEvent (s : KCPSession) (bytesCanRead : Int) (calls : List UserCall) : KCPSession :=
  let len := (ikcpRecv s.kcp (Int32.ofInt bytesCanRead)).rc
  let s := s.receive bytesCanRead
  let s := if len > 0 ∧ s.callbacks.message then calls.foldl call s else s
  if len > 0 then s else s.log .assertFailed

/-- The receive loop of `ProcessPacketInLoopThread`. Every turn takes a segment
off `rcv_queue`, so the number of received segments bounds the turns; the k-th
message callback makes the k-th list of calls. -/
def drain : Nat → List (List UserCall) → KCPSession → KCPSession
  | 0, _, s => s
  | fuel + 1, calls, s =>
    if s.closed then s
    else if ikcpPeeksize s.kcp < 0 then s
    else drain fuel calls.tail (s.onReadEvent (ikcpPeeksize s.kcp) (calls.headD []))

/-- `ProcessPacketInLoopThread`. -/
def processPacketInLoopThread (s : KCPSession) (packet : KCPReceivedPacket)
    (peerAddress : InetAddress) (calls : List (List UserCall)) : KCPSession :=
  if s.closed then s
  else
    let needDrainBeforeProcess := ikcpNeedDrain s.kcp
    let (result, kcp) := ikcpInput s.kcp packet.remainingData
    let s := s.setKcp kcp
    if result < 0 then s
    else
      let s := { s with peerAddress := peerAddress }
      let s := drain (kcp.rcvQueue.length + kcp.rcvBuf.length) calls s
      if !s.closed ∧ needDrainBeforeProcess ∧ !ikcpNeedDrain s.kcp ∧ s.callbacks.writeComplete then
        s.log .writeComplete
      else s

/-- `Initialize`, with the up event that precedes everything else in the loop;
nothing where it returns false. -/
def initializeWith (sessionId : UInt32) (peerAddress : InetAddress) (params : Params)
    (callbacks : SessionCallbacks) (calls : List UserCall) : Option KCPSession :=
  (initializeControl sessionId params).map fun kcp =>
    let s : KCPSession := { kcp, sessionId, peerAddress, callbacks }
    let s := s.onConnectionEvent true
    if callbacks.connection then calls.foldl call s else s

/-- What a session handed to its output callback so far. -/
def outputs (s : KCPSession) : List (List UInt8) :=
  s.events.filterMap fun
    | .output body _ => some body
    | _ => none

/-- The calls of `Write` so far. -/
def writes (s : KCPSession) : List (List UInt8) :=
  s.events.filterMap fun
    | .written data => some data
    | _ => none

/-- All bytes passed to `Write`. -/
def written (s : KCPSession) : List UInt8 := s.writes.flatten

/-- All bytes handed to the message callback. -/
def delivered (s : KCPSession) : List UInt8 :=
  s.events.flatMap fun
    | .message bytes => bytes
    | _ => []

/-- How many sequence numbers the session has given out. -/
def assigned (s : KCPSession) : Nat :=
  (s.events.map fun
    | .assigned count => count
    | _ => 0).sum

/-- The data in a session's events. -/
structure Trace where
  outputs : List (List UInt8)
  writes : List (List UInt8)
  delivered : List UInt8
  assigned : Nat

def trace (s : KCPSession) : Trace := ⟨s.outputs, s.writes, s.delivered, s.assigned⟩

end KCPSession

/-- The tasks that a session's loop runs. -/
inductive SessionTask where
  | call (userCall : UserCall)
  | update (currentMs : UInt32)
  | packet (received : KCPReceivedPacket) (peerAddress : InetAddress)
      (calls : List (List UserCall))
  deriving DecidableEq, Repr

/-- The session after a task. -/
def SessionTask.run (s : KCPSession) : SessionTask → KCPSession
  | .call userCall => s.call userCall
  | .update currentMs => s.updateConnectionState currentMs
  | .packet received peerAddress calls => s.processPacketInLoopThread received peerAddress calls

end CodeBlocks.Kcp
