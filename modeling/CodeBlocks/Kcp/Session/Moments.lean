import CodeBlocks.Kcp.Session.Completion
import CodeBlocks.Kcp.Session.Discipline

/-!
# States in which a session may be called

A callback runs in the middle of a task, and may write or close there. The states
in which it runs are reached by the first steps of the task, so that whatever all
steps preserve holds in them as it does between tasks.
-/

namespace CodeBlocks.Kcp

namespace KCPSession

/-- The states in the middle of a task are reached by its first steps. -/
theorem callMoments_steps {s m : KCPSession} {calls : List UserCall}
    (hm : m ∈ s.callMoments calls) : SessionSteps (fun _ => True) (s, []) (m, []) := by
  induction calls generalizing s with
  | nil => exact absurd hm List.not_mem_nil
  | cons userCall calls ih =>
      rcases List.mem_cons.mp hm with rfl | hm
      · exact call_steps s userCall
      · exact (call_steps s userCall).trans (ih hm)

/-- A message is handed out first. -/
theorem readMoments_steps {s m : KCPSession} {size : Int} (hsize : ¬ Int32.ofInt size < 0)
    {calls : List UserCall} (hm : m ∈ s.readMoments size calls) :
    SessionSteps (fun _ => True) (s, []) (m, []) := by
  have hreceive : SessionSteps (fun _ => True) (s, []) (s.receive size, []) :=
    .single (.receive s size hsize)
  rcases List.mem_cons.mp hm with rfl | hm
  · exact hreceive
  split at hm
  · exact hreceive.trans (callMoments_steps hm)
  · exact absurd hm List.not_mem_nil

/-- The receive loop, message by message. -/
theorem drainMoments_steps {fuel : Nat} {calls : List (List UserCall)} {s m : KCPSession}
    (hm : m ∈ drainMoments fuel calls s) : SessionSteps (fun _ => True) (s, []) (m, []) := by
  induction fuel generalizing calls s with
  | zero => exact absurd hm List.not_mem_nil
  | succ fuel ih =>
      unfold drainMoments at hm
      split at hm
      · exact absurd hm List.not_mem_nil
      split at hm
      · exact absurd hm List.not_mem_nil
      rename_i hpeek
      have hsize := ikcpPeeksize_nonneg hpeek
      rcases List.mem_append.mp hm with hm | hm
      · exact readMoments_steps hsize hm
      · exact (onReadEvent_steps s _ hsize _).trans (ih hm)

/-- A packet takes effect, and then the receive loop runs. -/
theorem packetMoments_steps {s m : KCPSession} {packet : KCPReceivedPacket}
    {peerAddress : InetAddress} {calls : List (List UserCall)}
    (hm : m ∈ s.packetMoments packet peerAddress calls) :
    SessionSteps (fun _ => True) (s, []) (m, []) := by
  unfold packetMoments at hm
  split at hm
  · exact absurd hm List.not_mem_nil
  have hinput : SessionSteps (fun _ => True) (s, [])
      (s.setKcp (ikcpInput s.kcp packet.remainingData).2, []) :=
    .single (.input s packet.remainingData trivial)
  generalize ikcpInput s.kcp packet.remainingData = input at hm hinput
  rcases List.mem_cons.mp hm with rfl | hm
  · exact hinput
  split at hm
  · exact absurd hm List.not_mem_nil
  · exact (hinput.tail (.address _ peerAddress)).trans (drainMoments_steps hm)

end KCPSession

namespace SessionTask

/-- Every moment inside a task is reached in small steps. -/
theorem moments_steps {s m : KCPSession} {task : SessionTask} (hm : m ∈ task.moments s) :
    SessionSteps (fun _ => True) (s, []) (m, []) := by
  have hrun : SessionSteps (fun _ => True) (s, []) (task.run s, []) :=
    task.run_steps s (by cases task <;> exact trivial)
  cases task with
  | packet received peerAddress calls =>
      rcases List.mem_append.mp hm with hm | hm
      · exact KCPSession.packetMoments_steps hm
      · rw [List.mem_singleton.mp hm]
        exact hrun
  | _ =>
      rw [List.mem_singleton.mp hm]
      exact hrun

/-- The states of a whole run. -/
theorem runMoments_steps {s m : KCPSession} {tasks : List SessionTask}
    (hm : m ∈ runMoments s tasks) : SessionSteps (fun _ => True) (s, []) (m, []) := by
  induction tasks generalizing s with
  | nil => exact absurd hm List.not_mem_nil
  | cons task tasks ih =>
      have hrun : SessionSteps (fun _ => True) (s, []) (task.run s, []) :=
        task.run_steps s (by cases task <;> exact trivial)
      rcases List.mem_append.mp hm with hm | hm
      · exact moments_steps hm
      · exact hrun.trans (ih hm)

end SessionTask

/-- A state in which a callback or a task of a session may write: after its start, or at any
moment of a run. -/
def KCPSession.Reached (sessionId : UInt32) (peerAddress : InetAddress) (params : Params)
    (callbacks : SessionCallbacks) (s : KCPSession) : Prop :=
  ∃ calls s₀ tasks, initializeWith sessionId peerAddress params callbacks calls = some s₀ ∧
    s ∈ s₀ :: SessionTask.runMoments s₀ tasks

/-- The steps that have led there from the control block that `Initialize` makes. -/
theorem KCPSession.Reached.steps {sessionId : UInt32} {peerAddress : InetAddress} {params : Params}
    {callbacks : SessionCallbacks} {s : KCPSession}
    (h : Reached sessionId peerAddress params callbacks s) :
    ∃ kcp, initializeControl sessionId params = some kcp ∧
      SessionSteps (fun _ => True) ({ kcp, sessionId, peerAddress, callbacks }, []) (s, []) := by
  obtain ⟨calls, s₀, tasks, hstart, hmem⟩ := h
  obtain ⟨kcp, hkcp, hsteps⟩ := initializeWith_steps hstart
  refine ⟨kcp, hkcp, ?_⟩
  rcases List.mem_cons.mp hmem with rfl | hmem
  · exact hsteps _
  · exact (hsteps _).trans (SessionTask.runMoments_steps hmem)

end CodeBlocks.Kcp
