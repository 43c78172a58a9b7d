import Mathlib.Logic.Relation
import CodeBlocks.Kcp.Session.Session

/-!
# Primitive steps of a session

Every task of a session is a sequence of a few primitive steps: a change of the
control block together with the events that belong to it. The second component
of a configuration holds the bytes of the current `Write` that are not queued
yet. Properties of whole runs are proved over these steps, and the tasks only
have to be decomposed once.
-/

namespace CodeBlocks.Kcp

open Relation

/-- Events that carry no data and no sequence numbers. -/
def SessionEvent.quiet : SessionEvent → Bool
  | .message _ => false
  | .written _ => false
  | .assigned _ => false
  | .output _ _ => false
  | _ => true

/-- Primitive steps, with the datagrams that may arrive. -/
inductive SessionStep (arrives : List UInt8 → Prop) :
    KCPSession × List UInt8 → KCPSession × List UInt8 → Prop where
  | written (s : KCPSession) (data : List UInt8) :
      SessionStep arrives (s, []) (s.log (.written data), data)
  | enqueue (s : KCPSession) (taken rest : List UInt8) (alwaysStream : Bool)
      (hopen : s.closed = false) (hok : (ikcpWrite s.kcp taken alwaysStream).1 = 0) :
      SessionStep arrives (s, taken ++ rest)
        (s.setKcp (ikcpWrite s.kcp taken alwaysStream).2, rest)
  | refuse (s : KCPSession) (taken pending : List UInt8) (alwaysStream : Bool)
      (hfail : (ikcpWrite s.kcp taken alwaysStream).1 ≠ 0) :
      SessionStep arrives (s, pending)
        (s.setKcp (ikcpWrite s.kcp taken alwaysStream).2, pending)
  | discard (s : KCPSession) (pending : List UInt8)
      (hlost : s.closed = true ∨ 2 ^ 31 ≤ pending.length) :
      SessionStep arrives (s, pending) (s, [])
  | flush (s : KCPSession) (pending : List UInt8) (currentMs : UInt32) :
      SessionStep arrives (s, pending) (s.flush currentMs, pending)
  | input (s : KCPSession) (data : List UInt8) (harrives : arrives data) :
      SessionStep arrives (s, []) (s.setKcp (ikcpInput s.kcp data).2, [])
  | receive (s : KCPSession) (size : Int) (hsize : ¬ Int32.ofInt size < 0) :
      SessionStep arrives (s, []) (s.receive size, [])
  | quiet (s : KCPSession) (pending : List UInt8) (event : SessionEvent)
      (hquiet : event.quiet = true) :
      SessionStep arrives (s, pending) (s.log event, pending)
  | address (s : KCPSession) (peerAddress : InetAddress) :
      SessionStep arrives (s, []) ({ s with peerAddress := peerAddress }, [])
  | closing (s : KCPSession) : SessionStep arrives (s, []) ({ s with closed := true }, [])

/-- Any number of primitive steps. -/
abbrev SessionSteps (arrives : List UInt8 → Prop) :
    KCPSession × List UInt8 → KCPSession × List UInt8 → Prop :=
  ReflTransGen (SessionStep arrives)

/-- What every primitive step preserves, every sequence of them preserves. -/
theorem SessionSteps.preserves {arrives : List UInt8 → Prop} {P : KCPSession → List UInt8 → Prop}
    (hstep : ∀ s p s' p', SessionStep arrives (s, p) (s', p') → P s p → P s' p')
    {c c' : KCPSession × List UInt8} (h : SessionSteps arrives c c') (hc : P c.1 c.2) :
    P c'.1 c'.2 := by
  induction h with
  | refl => exact hc
  | tail _ hlast ih => exact hstep _ _ _ _ hlast ih

namespace KCPSession

/-- A quiet event leaves the data of the trace alone. -/
theorem log_trace (s : KCPSession) {event : SessionEvent} (h : event.quiet = true) :
    (s.log event).trace = s.trace := by
  cases event with
  | message bytes => cases h
  | written data => cases h
  | assigned count => cases h
  | output body address => cases h
  | _ => simp [trace, log, outputs, writes, delivered, assigned]

theorem log_written_trace (s : KCPSession) (data : List UInt8) :
    (s.log (.written data)).trace = ⟨s.outputs, s.writes ++ [data], s.delivered, s.assigned⟩ := by
  simp [trace, log, outputs, writes, delivered, assigned]

theorem log_message_trace (s : KCPSession) (bytes : List UInt8) :
    (s.log (.message bytes)).trace = ⟨s.outputs, s.writes, s.delivered ++ bytes, s.assigned⟩ := by
  simp [trace, log, outputs, writes, delivered, assigned]

/-- A flush outputs its datagrams and counts the numbers it gave out. -/
theorem flush_trace (s : KCPSession) (currentMs : UInt32) :
    (s.flush currentMs).trace = ⟨s.outputs ++ (ikcpFlush s.kcp currentMs).sent, s.writes,
      s.delivered,
      s.assigned + ((ikcpFlush s.kcp currentMs).kcp.sndNxt - s.kcp.sndNxt).toNat⟩ := by
  simp [trace, flush, outputs, writes, delivered, assigned, List.filterMap_map,
    Function.comp_def]

/-- Receiving takes what `ikcp_recv` leaves and hands out its bytes. -/
theorem receive_spec (s : KCPSession) (size : Int) :
    (s.receive size).kcp = (ikcpRecv s.kcp (Int32.ofInt size)).kcp ∧
      (s.receive size).callbacks = s.callbacks ∧ (s.receive size).closed = s.closed ∧
      (s.receive size).trace = ⟨s.outputs, s.writes,
        s.delivered ++ (if (ikcpRecv s.kcp (Int32.ofInt size)).rc > 0 ∧ s.callbacks.message then
          (ikcpRecv s.kcp (Int32.ofInt size)).bytes else []), s.assigned⟩ := by
  unfold receive
  generalize ikcpRecv s.kcp (Int32.ofInt size) = result
  have hasserted : ∃ s' : KCPSession,
      (if result.asserted then s.setKcp result.kcp
        else (s.setKcp result.kcp).log .assertFailed) = s' ∧ s'.kcp = result.kcp ∧
        s'.callbacks = s.callbacks ∧ s'.closed = s.closed ∧ s'.trace = s.trace := by
    refine ⟨_, rfl, ?_⟩
    split
    · exact ⟨rfl, rfl, rfl, rfl⟩
    · exact ⟨rfl, rfl, rfl, log_trace _ rfl⟩
  obtain ⟨s', hs', hkcp, hcallbacks, hclosed, htrace⟩ := hasserted
  have hmessage := s'.log_message_trace result.bytes
  simp only [trace, Trace.mk.injEq] at htrace hmessage ⊢
  simp only [hs', hcallbacks]
  obtain ⟨hout, hwrites, hdel, hasg⟩ := htrace
  split
  · refine ⟨hkcp, hcallbacks, hclosed, ?_⟩
    rw [← hout, ← hwrites, ← hdel, ← hasg]
    exact hmessage
  · rw [List.append_nil]
    exact ⟨hkcp, hcallbacks, hclosed, hout, hwrites, hdel, hasg⟩

variable {arrives : List UInt8 → Prop}

/-- An event that is logged under a condition. -/
theorem log_steps (c : Prop) [Decidable c] (s : KCPSession) (pending : List UInt8)
    {event : SessionEvent} (hquiet : event.quiet = true) :
    SessionSteps arrives (s, pending) (if c then s.log event else s, pending) := by
  split
  · exact .single (.quiet s pending event hquiet)
  · exact .refl

/-- Emptying the transmit queue in small steps. -/
theorem flushTxQueue_steps (s : KCPSession) (pending : List UInt8) :
    SessionSteps arrives (s, pending) (s.flushTxQueue, pending) :=
  log_steps _ s pending rfl

/-- The connection callback in small steps. -/
theorem onConnectionEvent_steps (s : KCPSession) (connected : Bool) :
    SessionSteps arrives (s, []) (s.onConnectionEvent connected, []) :=
  log_steps _ s [] rfl

/-- A flush and the notice that its datagrams are queued. -/
theorem flush_steps (s : KCPSession) (pending : List UInt8) (currentMs : UInt32) :
    SessionSteps arrives (s, pending) ((s.flush currentMs).flushTxQueue, pending) :=
  .head (.flush s pending currentMs) (flushTxQueue_steps _ pending)

/-- Closing in small steps. -/
theorem close_steps (s : KCPSession) (lastFlush : Bool) (currentMs : UInt32) :
    SessionSteps arrives (s, []) (s.close lastFlush currentMs, []) := by
  unfold close
  split
  · exact .refl
  · refine .head (.closing s) ?_
    refine .trans ?_ (onConnectionEvent_steps _ false)
    cases lastFlush with
    | true => exact flush_steps _ [] currentMs
    | false => exact .refl

/-- `UpdateConnectionState` in small steps. -/
theorem updateConnectionState_steps (s : KCPSession) (currentMs : UInt32) :
    SessionSteps arrives (s, []) (s.updateConnectionState currentMs, []) := by
  unfold updateConnectionState
  split
  · exact .refl
  split
  · exact close_steps s false currentMs
  · exact (flush_steps s [] currentMs).tail (.quiet _ [] _ rfl)

@[simp] theorem flush_closed (s : KCPSession) (currentMs : UInt32) :
    (s.flush currentMs).closed = s.closed := rfl

/-- Writing an event down closes nothing. -/
theorem log_closed (c : Prop) [Decidable c] (s : KCPSession) (event : SessionEvent) :
    (if c then s.log event else s).closed = s.closed := by
  split <;> rfl

@[simp] theorem flushTxQueue_closed (s : KCPSession) : s.flushTxQueue.closed = s.closed :=
  log_closed _ s _

/-- A flush that is made when there is room on the wire. -/
theorem flushWire_steps (c : Prop) [Decidable c] (s : KCPSession) (pending : List UInt8)
    (currentMs : UInt32) (hopen : s.closed = false) :
    ∃ s' : KCPSession, (if c then (s.flush currentMs).flushTxQueue else s) = s' ∧
      SessionSteps arrives (s, pending) (s', pending) ∧ s'.closed = false := by
  refine ⟨_, rfl, ?_⟩
  split
  · refine ⟨flush_steps s pending currentMs, ?_⟩
    rw [flushTxQueue_closed, flush_closed]
    exact hopen
  · exact ⟨.refl, hopen⟩

/-- What is sent leaves the pending bytes; a refused send leaves them all. -/
theorem writeWindow_steps (s : KCPSession) (data : List UInt8) (currentMs : UInt32)
    (hopen : s.closed = false) :
    SessionSteps arrives (s, data)
        ((s.writeWindow data currentMs).1, data.drop (s.writeWindow data currentMs).2) ∧
      (s.writeWindow data currentMs).1.closed = false := by
  unfold writeWindow
  by_cases hdrain : ikcpNeedDrain s.kcp = true
  · rw [if_pos hdrain]
    exact ⟨.refl, hopen⟩
  rw [if_neg hdrain]
  generalize min (ikcpAvailableWndInBytes s.kcp).toNat data.length = bytes
  by_cases hpos : bytes > 0
  · simp only [hpos, ite_true]
    by_cases hok : (ikcpSend s.kcp (data.take bytes)).1 = 0
    · have hsend : SessionStep arrives _ _ :=
        .enqueue s (data.take bytes) (data.drop bytes) false hopen hok
      rw [List.take_append_drop] at hsend
      obtain ⟨s', hs', hsteps, hstill⟩ := flushWire_steps (ikcpAvailableSndwndInBytes s.kcp > 0)
        (s.setKcp (ikcpSend s.kcp (data.take bytes)).2) (data.drop bytes) currentMs hopen
      simp only [hok, ite_true, hs']
      refine ⟨.head hsend (hsteps.trans (log_steps _ s' _ rfl)), ?_⟩
      rw [log_closed]
      exact hstill
    · simp only [hok, ite_false, List.drop_zero]
      exact ⟨.tail (.single (.refuse s (data.take bytes) data false hok)) (.quiet _ _ _ rfl),
        hopen⟩
  · simp only [hpos, ite_false, List.drop_zero]
    exact ⟨.refl, hopen⟩

/-- Appending fails for lengths that are negative as an `int` only. -/
theorem ikcpAppend_ne_zero {kcp : IKCPCB} {data : List UInt8} (h : (ikcpAppend kcp data).1 ≠ 0) :
    2 ^ 31 ≤ data.length := by
  by_contra hlt
  have hlen : ikcpIntLen data = data.length := Int32.toInt_ofNat_of_lt (by omega)
  apply h
  rw [ikcpAppend, ikcpWrite, if_neg (by rw [hlen]; omega)]
  simp only [Bool.or_true, ite_true, true_and, Bool.not_true, Bool.false_eq_true, false_and,
    ite_false]
  split <;> rfl

/-- The part of a `Write` that is appended, in small steps that leave nothing pending. -/
theorem writeRemaining_steps (s : KCPSession) (data : List UInt8) (reach : Bool)
    (hopen : s.closed = false) :
    SessionSteps arrives (s, data) (s.writeRemaining data reach, []) := by
  unfold writeRemaining
  by_cases hpos : data.length > 0
  · simp only [hpos, ite_true]
    by_cases hok : (ikcpAppend s.kcp data).1 = 0
    · have happend : SessionStep arrives _ _ := .enqueue s data [] true hopen hok
      rw [List.append_nil] at happend
      simp only [hok, ite_true]
      refine .head happend ?_
      split
      · exact .single (.quiet _ _ _ rfl)
      · exact .refl
    · simp only [hok, ite_false]
      refine .head (.refuse s data data true hok) ?_
      exact .head (.discard _ data (Or.inr (ikcpAppend_ne_zero hok))) (.single (.quiet _ _ _ rfl))
  · have hnil : data = [] := List.eq_nil_of_length_eq_zero (by omega)
    rw [if_neg hpos, hnil]

/-- A `Write` in small steps. -/
theorem writeInLoopThread_steps (s : KCPSession) (data : List UInt8) (currentMs : UInt32) :
    SessionSteps arrives (s, []) (s.writeInLoopThread data currentMs, []) := by
  unfold writeInLoopThread
  refine .head (.written s data) ?_
  by_cases hclosed : (s.log (.written data)).closed = true
  · rw [if_pos hclosed]
    exact .single (.discard _ data (Or.inl hclosed))
  · rw [if_neg hclosed]
    have hopen : (s.log (.written data)).closed = false := by simpa using hclosed
    obtain ⟨hwindow, hstill⟩ := writeWindow_steps _ data currentMs hopen
    exact hwindow.trans (writeRemaining_steps _ _ _ hstill)

/-- One call of the user in small steps. -/
theorem call_steps (s : KCPSession) (userCall : UserCall) :
    SessionSteps arrives (s, []) (s.call userCall, []) := by
  cases userCall with
  | write data currentMs => exact writeInLoopThread_steps s data currentMs
  | close lastFlush currentMs => exact close_steps s lastFlush currentMs

/-- All the calls of a callback in small steps. -/
theorem calls_steps (s : KCPSession) (calls : List UserCall) :
    SessionSteps arrives (s, []) (calls.foldl call s, []) := by
  induction calls generalizing s with
  | nil => exact .refl
  | cons userCall calls ih => exact (call_steps s userCall).trans (ih _)

/-- What follows the call of `ikcp_recv` in `OnReadEvent`. -/
theorem onReadEvent_rest (s : KCPSession) (size : Int) (calls : List UserCall) :
    SessionSteps arrives (s.receive size, []) (s.onReadEvent size calls, []) := by
  unfold onReadEvent
  have hcalls : ∃ s' : KCPSession, (if (ikcpRecv s.kcp (Int32.ofInt size)).rc > 0 ∧
        (s.receive size).callbacks.message then calls.foldl call (s.receive size)
      else s.receive size) = s' ∧ SessionSteps arrives (s.receive size, []) (s', []) := by
    refine ⟨_, rfl, ?_⟩
    split
    · exact calls_steps _ calls
    · exact .refl
  obtain ⟨s', hs', hsteps⟩ := hcalls
  simp only [hs']
  apply hsteps.trans
  split
  · exact .refl
  · exact .single (.quiet _ [] _ rfl)

/-- One message read and handed to the callback, in small steps. -/
theorem onReadEvent_steps (s : KCPSession) (size : Int) (hsize : ¬ Int32.ofInt size < 0)
    (calls : List UserCall) :
    SessionSteps arrives (s, []) (s.onReadEvent size calls, []) :=
  .head (.receive s size hsize) (onReadEvent_rest s size calls)

/-- The size that can be read is an `int`. -/
theorem toInt_ikcpPeeksize (kcp : IKCPCB) :
    (Int32.ofInt (ikcpPeeksize kcp)).toInt = ikcpPeeksize kcp := by
  have hint : ∃ x : Int32, ikcpPeeksize kcp = x.toInt := by
    unfold ikcpPeeksize
    cases kcp.rcvQueue with
    | nil => exact ⟨-1, rfl⟩
    | cons seg rest =>
        simp only
        split
        · exact ⟨_, rfl⟩
        split
        · exact ⟨-1, rfl⟩
        · exact ⟨_, rfl⟩
  obtain ⟨x, hx⟩ := hint
  rw [hx, Int32.ofInt_toInt]

/-- A size that is there stays so when it is narrowed to `int`. -/
theorem ikcpPeeksize_nonneg {kcp : IKCPCB} (h : ¬ ikcpPeeksize kcp < 0) :
    ¬ Int32.ofInt (ikcpPeeksize kcp) < 0 := by
  rw [Int32.lt_iff_toInt_lt, toInt_ikcpPeeksize]
  exact h

/-- The receive loop in small steps. -/
theorem drain_steps (fuel : Nat) (calls : List (List UserCall)) (s : KCPSession) :
    SessionSteps arrives (s, []) (drain fuel calls s, []) := by
  induction fuel generalizing calls s with
  | zero => exact .refl
  | succ fuel ih =>
      unfold drain
      split
      · exact .refl
      split
      · exact .refl
      · rename_i hpeek
        exact (onReadEvent_steps s _ (ikcpPeeksize_nonneg hpeek) _).trans (ih _ _)

/-- A packet in small steps, where its bytes may arrive. -/
theorem processPacketInLoopThread_steps (s : KCPSession) (packet : KCPReceivedPacket)
    (peerAddress : InetAddress) (calls : List (List UserCall))
    (harrives : arrives packet.remainingData) :
    SessionSteps arrives (s, []) (s.processPacketInLoopThread packet peerAddress calls, []) := by
  unfold processPacketInLoopThread
  by_cases hclosed : s.closed = true
  · rw [if_pos hclosed]
  rw [if_neg hclosed]
  refine .head (.input s packet.remainingData harrives) ?_
  simp only
  split
  · exact .refl
  · refine .head (.address _ peerAddress) ?_
    generalize hd : drain _ calls _ = s'
    exact .trans (hd ▸ drain_steps _ calls _) (log_steps _ s' [] rfl)

end KCPSession

/-- A task whose packet, if it has one, may arrive. -/
def SessionTask.Arrives (arrives : List UInt8 → Prop) : SessionTask → Prop
  | .packet received _ _ => arrives received.remainingData
  | _ => True

/-- Every task is a sequence of primitive steps. -/
theorem SessionTask.run_steps {arrives : List UInt8 → Prop} (s : KCPSession) {task : SessionTask}
    (harrives : task.Arrives arrives) : SessionSteps arrives (s, []) (task.run s, []) := by
  cases task with
  | call userCall => exact KCPSession.call_steps s userCall
  | update currentMs => exact KCPSession.updateConnectionState_steps s currentMs
  | packet received peerAddress calls =>
      exact KCPSession.processPacketInLoopThread_steps s received peerAddress calls harrives

/-- So is the start of a session, up to the calls of its connection callback. -/
theorem KCPSession.initializeWith_steps {sessionId : UInt32}
    {peerAddress : InetAddress} {params : Params} {callbacks : SessionCallbacks}
    {calls : List UserCall} {s : KCPSession}
    (h : initializeWith sessionId peerAddress params callbacks calls = some s) :
    ∃ kcp, initializeControl sessionId params = some kcp ∧ ∀ arrives,
      SessionSteps arrives ({ kcp, sessionId, peerAddress, callbacks }, []) (s, []) := by
  obtain ⟨kcp, hkcp, rfl⟩ := Option.map_eq_some_iff.mp h
  refine ⟨kcp, hkcp, fun arrives => (onConnectionEvent_steps _ true).trans ?_⟩
  split
  · exact calls_steps _ calls
  · exact .refl

/-! The parts that the operations share, for relations between the state before an operation and the
one after it. -/

/-- The events by which an operation reports to the user, the loop or a timer. -/
def SessionEvent.isReport : SessionEvent → Bool
  | .connection _ => false
  | .assigned _ => false
  | .output _ _ => false
  | .flushTxQueue => false
  | _ => true

/-- The parts of an operation are in the relation, and so are parts one after another. -/
structure Composable (R : KCPSession → KCPSession → Prop) : Prop where
  refl : ∀ s, R s s
  trans : ∀ {s s' s''}, R s s' → R s' s'' → R s s''
  setKcp : ∀ s kcp, R s (s.setKcp kcp)
  report : ∀ s {event : SessionEvent}, event.isReport = true → R s (s.log event)
  flushed : ∀ s currentMs, R s (s.flush currentMs).flushTxQueue

namespace Composable

variable {R : KCPSession → KCPSession → Prop} (hR : Composable R)

include hR

/-- A part that is run under a condition. -/
theorem ite (c : Prop) [Decidable c] {s s' s'' : KCPSession} (h : R s s') (h' : R s' s'') :
    R s (if c then s'' else s') := by
  split
  · exact hR.trans h h'
  · exact h

/-- The part of a `Write` that goes through the window is in the relation. -/
theorem writeWindow (s : KCPSession) (data : List UInt8) (currentMs : UInt32) :
    R s (s.writeWindow data currentMs).1 := by
  unfold KCPSession.writeWindow
  by_cases hdrain : ikcpNeedDrain s.kcp = true
  · rw [if_pos hdrain]
    exact hR.refl s
  rw [if_neg hdrain]
  generalize min (ikcpAvailableWndInBytes s.kcp).toNat data.length = bytes
  by_cases hpos : bytes > 0
  · simp only [hpos, if_true]
    have hset := hR.setKcp s (ikcpSend s.kcp (data.take bytes)).2
    by_cases hok : (ikcpSend s.kcp (data.take bytes)).1 = 0
    · simp only [hok, if_true]
      exact hR.ite _ (hR.ite (ikcpAvailableSndwndInBytes s.kcp > 0) hset (hR.flushed _ currentMs))
        (hR.report _ rfl)
    · simp only [hok, if_false]
      exact hR.trans hset (hR.report _ rfl)
  · simp only [hpos, if_false]
    exact hR.refl s

/-- So is the part that is appended. -/
theorem writeRemaining (s : KCPSession) (data : List UInt8) (reach : Bool) :
    R s (s.writeRemaining data reach) := by
  unfold KCPSession.writeRemaining
  by_cases hpos : data.length > 0
  · simp only [hpos, if_true]
    have hset := hR.setKcp s (ikcpAppend s.kcp data).2
    by_cases hok : (ikcpAppend s.kcp data).1 = 0
    · simp only [hok, if_true]
      exact hR.ite _ hset (hR.report _ rfl)
    · simp only [hok, if_false]
      exact hR.trans hset (hR.report _ rfl)
  · rw [if_neg hpos]
    exact hR.refl s

/-- So is taking one message from the queue. -/
theorem receive (s : KCPSession) (size : Int) : R s (s.receive size) := by
  unfold KCPSession.receive
  generalize ikcpRecv s.kcp (Int32.ofInt size) = result
  have hset := hR.setKcp s result.kcp
  have hasserted : R s (if result.asserted then s.setKcp result.kcp
      else (s.setKcp result.kcp).log .assertFailed) := by
    split
    · exact hset
    · exact hR.trans hset (hR.report _ rfl)
  exact hR.ite _ hasserted (hR.report _ rfl)

end Composable

end CodeBlocks.Kcp
