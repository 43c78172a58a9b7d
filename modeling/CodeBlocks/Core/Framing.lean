import Mathlib.Data.List.Basic
import Mathlib.Data.List.Forall2
import Mathlib.Data.List.Induction
import Mathlib.Logic.Function.Iterate

/-!
# Framed streams

Messages arrive on a stream, each in a frame of its own, and are taken off the
front of a buffer as soon as their frames are complete. What a reader finds at the
front of the buffer does not depend on what follows, so it finds the same messages
however the stream is cut into pieces. A reader that refuses what it sees goes no
further: it refuses again whenever more data arrives.
-/

namespace CodeBlocks

/-- What a reader makes of the data at the front of its buffer. -/
inductive Front (μ ε : Type*) where
  | wait
  | found (message : μ) (size : Nat)
  | refused (error : ε)
  deriving DecidableEq, Repr

/-- A reader of frames. More data does not change what it has found or refused, and it finds the
same in a frame alone. -/
structure Framing (α μ ε : Type*) where
  next : List α → Front μ ε
  nil : next [] = .wait
  settled : ∀ {data}, next data ≠ .wait → ∀ more, next (data ++ more) = next data
  bounds : ∀ {data message size}, next data = .found message size →
    0 < size ∧ size ≤ data.length
  own : ∀ {data message size}, next data = .found message size →
    next (data.take size) = .found message size

/-- The messages at the front of some data, what was refused behind them if anything was, and what
is left. -/
@[ext] structure Decoded (α μ ε : Type*) where
  messages : List μ := []
  error : Option ε := none
  rest : List α
  deriving DecidableEq, Repr

variable {α μ ε σ : Type*}

/-- Some messages in front of what is decoded. -/
def Decoded.after (decoded : Decoded α μ ε) (messages : List μ) : Decoded α μ ε :=
  { decoded with messages := messages ++ decoded.messages }

/-- The last turn of a reader. -/
def Decoded.end (decoded : Decoded α μ ε) : Front μ ε :=
  match decoded.error with
  | none => .wait
  | some error => .refused error

namespace Framing

variable (framing : Framing α μ ε)

/-- The messages that a reader finds in a number of turns. -/
def decodeWithin : Nat → List α → Decoded α μ ε
  | 0, data => { rest := data }
  | turns + 1, data =>
    match framing.next data with
    | .wait => { rest := data }
    | .refused error => { error := some error, rest := data }
    | .found message size => (decodeWithin turns (data.drop size)).after [message]

/-- The messages that a reader finds. -/
def decode (data : List α) : Decoded α μ ε := framing.decodeWithin (data.length + 1) data

/-- `data` is the frame of a message. -/
def IsFrame (data : List α) (message : μ) : Prop := framing.next data = .found message data.length

/-- A reader with the data it has kept, when more arrives: `found` is called for every message,
and `refused` if one is refused. -/
def serve (found : σ → μ → σ) (refused : σ → ε → σ) (state : σ × List α) (data : List α) :
    σ × List α :=
  let decoded := framing.decode (state.2 ++ data)
  let after := decoded.messages.foldl found state.1
  (decoded.error.elim after (refused after), decoded.rest)

variable {framing}

/-- A turn for every symbol is enough. -/
theorem decodeWithin_of_lt {turns : Nat} {data : List α} (h : data.length < turns) :
    framing.decodeWithin turns data = framing.decode data := by
  unfold decode
  generalize hother : data.length + 1 = other
  replace hother : data.length < other := by omega
  induction turns generalizing data other with
  | zero => cases h
  | succ turns ih =>
      cases other with
      | zero => cases hother
      | succ other =>
          rw [decodeWithin, decodeWithin]
          cases hnext : framing.next data with
          | wait => rfl
          | refused error => rfl
          | found message size =>
              obtain ⟨hpos, hle⟩ := framing.bounds hnext
              have hless : (data.drop size).length < data.length := by
                rw [List.length_drop]
                omega
              dsimp only
              rw [ih (by omega) other (by omega)]

variable (framing) in
/-- A frame that is not complete is left. -/
theorem decode_wait {data : List α} (h : framing.next data = .wait) :
    framing.decode data = { rest := data } := by
  rw [decode, decodeWithin, h]

variable (framing) in
/-- A frame that is refused ends the decoding. -/
theorem decode_refused {data : List α} {error : ε} (h : framing.next data = .refused error) :
    framing.decode data = { error := some error, rest := data } := by
  rw [decode, decodeWithin, h]

variable (framing) in
/-- A frame that is found is taken off. -/
theorem decode_found {data : List α} {message : μ} {size : Nat}
    (h : framing.next data = .found message size) :
    framing.decode data = (framing.decode (data.drop size)).after [message] := by
  obtain ⟨hpos, hle⟩ := framing.bounds h
  have hless : (data.drop size).length < data.length := by
    rw [List.length_drop]
    omega
  rw [decode, decodeWithin, h]
  dsimp only
  rw [decodeWithin_of_lt hless]

/-- A frame is found whatever follows it. -/
theorem next_append_found {data : List α} {message : μ} {size : Nat}
    (h : framing.next data = .found message size) (more : List α) :
    framing.next (data ++ more) = .found message size := by
  rw [framing.settled (by rw [h]; nofun), h]

/-- It is refused whatever follows it. -/
theorem next_append_refused {data : List α} {error : ε}
    (h : framing.next data = .refused error) (more : List α) :
    framing.next (data ++ more) = .refused error := by
  rw [framing.settled (by rw [h]; nofun), h]

/-- Decoding goes on where it has stopped when more data arrives. -/
theorem decode_append (data more : List α) :
    framing.decode (data ++ more) =
      (framing.decode ((framing.decode data).rest ++ more)).after
        (framing.decode data).messages := by
  induction hlen : data.length using Nat.strongRecOn generalizing data with
  | ind n ih =>
      cases hnext : framing.next data with
      | wait =>
          rw [framing.decode_wait hnext]
          rfl
      | refused error =>
          rw [framing.decode_refused hnext]
          rfl
      | found message size =>
          obtain ⟨hpos, hle⟩ := framing.bounds hnext
          have hless : (data.drop size).length < n := by
            rw [List.length_drop]
            omega
          rw [framing.decode_found hnext, framing.decode_found (next_append_found hnext more),
            List.drop_append_of_le_length hle, ih _ hless _ rfl]
          rfl

variable (framing) in
/-- The turn at which decoding has stopped. -/
theorem next_rest (data : List α) :
    framing.next (framing.decode data).rest = (framing.decode data).end := by
  induction hlen : data.length using Nat.strongRecOn generalizing data with
  | ind n ih =>
      cases hnext : framing.next data with
      | wait =>
          rw [framing.decode_wait hnext]
          exact hnext
      | refused error =>
          rw [framing.decode_refused hnext]
          exact hnext
      | found message size =>
          obtain ⟨hpos, hle⟩ := framing.bounds hnext
          have hless : (data.drop size).length < n := by
            rw [List.length_drop]
            omega
          rw [framing.decode_found hnext]
          exact ih _ hless _ rfl

/-- Frames are decoded to their messages, whatever follows them. -/
theorem decode_frames {frames : List (List α)} {messages : List μ}
    (h : List.Forall₂ framing.IsFrame frames messages) (data : List α) :
    framing.decode (frames.flatten ++ data) = (framing.decode data).after messages := by
  induction h with
  | nil => rfl
  | @cons frame message frames messages hframe htail ih =>
      have hnext := next_append_found hframe (frames.flatten ++ data)
      rw [List.flatten_cons, List.append_assoc, framing.decode_found hnext, List.drop_left, ih]
      rfl

/-- What is decoded are the messages of the frames at the front of the data, as many as there
are. -/
theorem decode_eq_iff {data rest : List α} {messages : List μ} {error : Option ε} :
    framing.decode data = ⟨messages, error, rest⟩ ↔
      ∃ frames, List.Forall₂ framing.IsFrame frames messages ∧ data = frames.flatten ++ rest ∧
        framing.next rest = (⟨messages, error, rest⟩ : Decoded α μ ε).end := by
  constructor
  · intro h
    have hrest := framing.next_rest data
    rw [h] at hrest
    suffices hsplit : ∃ frames, List.Forall₂ framing.IsFrame frames messages ∧
        data = frames.flatten ++ rest by
      obtain ⟨frames, hframes, hdata⟩ := hsplit
      exact ⟨frames, hframes, hdata, hrest⟩
    induction hlen : data.length using Nat.strongRecOn generalizing data messages with
    | ind n ih =>
        cases hnext : framing.next data with
        | wait =>
            rw [framing.decode_wait hnext, Decoded.mk.injEq] at h
            obtain ⟨rfl, -, rfl⟩ := h
            exact ⟨[], .nil, rfl⟩
        | refused error =>
            rw [framing.decode_refused hnext, Decoded.mk.injEq] at h
            obtain ⟨rfl, -, rfl⟩ := h
            exact ⟨[], .nil, rfl⟩
        | found message size =>
            obtain ⟨hpos, hle⟩ := framing.bounds hnext
            have hless : (data.drop size).length < n := by
              rw [List.length_drop]
              omega
            rw [framing.decode_found hnext, Decoded.after, Decoded.mk.injEq] at h
            obtain ⟨rfl, herror, hstop⟩ := h
            have hdecode : framing.decode (data.drop size) =
                ⟨(framing.decode (data.drop size)).messages, error, rest⟩ := by
              rw [← herror, ← hstop]
            obtain ⟨frames, hframes, hdata⟩ := ih _ hless hdecode (by rw [hrest]; rfl) rfl
            have hframe : framing.IsFrame (data.take size) message := by
              rw [IsFrame, framing.own hnext, List.length_take, Nat.min_eq_left hle]
            refine ⟨data.take size :: frames, .cons hframe hframes, ?_⟩
            rw [List.flatten_cons, List.append_assoc, ← hdata, List.take_append_drop]
  · rintro ⟨frames, hframes, rfl, hrest⟩
    rw [decode_frames hframes]
    cases error with
    | none =>
        rw [framing.decode_wait hrest]
        simp [Decoded.after]
    | some error =>
        rw [framing.decode_refused hrest]
        simp [Decoded.after]

/-- There is one way to split data into frames and a rest that begins with none. -/
theorem split_unique {frames frames' : List (List α)} {messages messages' : List μ}
    {rest rest' : List α} (h : List.Forall₂ framing.IsFrame frames messages)
    (h' : List.Forall₂ framing.IsFrame frames' messages')
    (hstop : ∀ frame message, frame <+: rest → ¬ framing.IsFrame frame message)
    (hstop' : ∀ frame message, frame <+: rest' → ¬ framing.IsFrame frame message)
    (hdata : frames.flatten ++ rest = frames'.flatten ++ rest') :
    frames = frames' ∧ messages = messages' ∧ rest = rest' := by
  induction h generalizing frames' messages' with
  | nil =>
      cases h' with
      | nil => exact ⟨rfl, rfl, hdata⟩
      | @cons frame message frames messages hframe _ =>
          rw [List.flatten_nil, List.nil_append, List.flatten_cons, List.append_assoc] at hdata
          exact absurd hframe (hstop frame message ⟨_, hdata.symm⟩)
  | @cons frame message frames messages hframe _ ih =>
      rw [List.flatten_cons, List.append_assoc] at hdata
      cases h' with
      | nil => exact absurd hframe (hstop' frame message ⟨_, hdata⟩)
      | @cons frame' message' frames' messages' hframe' htail' =>
          rw [List.flatten_cons, List.append_assoc] at hdata
          have hnext := next_append_found hframe (frames.flatten ++ rest)
          have hnext' := next_append_found hframe' (frames'.flatten ++ rest')
          rw [hdata, hnext', Front.found.injEq] at hnext
          obtain ⟨rfl, hlen⟩ := hnext
          obtain ⟨rfl, hrest⟩ := List.append_inj hdata hlen.symm
          obtain ⟨rfl, rfl, rfl⟩ := ih htail' hrest
          exact ⟨rfl, rfl, rfl⟩

/-- The reader waits in the middle of a frame. -/
theorem IsFrame.wait {frame part : List α} {message : μ} (h : framing.IsFrame frame message)
    (hpart : part <+: frame) (hne : part ≠ frame) : framing.next part = .wait := by
  obtain ⟨tail, rfl⟩ := hpart
  by_contra hnot
  have hnext := framing.settled hnot tail
  rw [h] at hnext
  have hle := (framing.bounds hnext.symm).2
  rw [List.length_append] at hle
  have htail : tail = [] := List.eq_nil_of_length_eq_zero (by omega)
  exact hne (by rw [htail, List.append_nil])

variable (framing) in
/-- What has arrived of some items that were written one after the other is decoded to the messages
of the first of them, and the rest belongs to the others. -/
theorem decode_written {β : Type*} {write : β → List α} (message : β → μ) {items : List β}
    {data more : List α} (hwrite : ∀ item ∈ items, framing.IsFrame (write item) (message item))
    (hdata : data ++ more = items.flatMap write) :
    ∃ first others rest, items = first ++ others ∧
      framing.decode data = { messages := first.map message, rest := rest } ∧
      rest ++ more = others.flatMap write := by
  induction items generalizing data with
  | nil =>
      obtain ⟨rfl, rfl⟩ := List.append_eq_nil_iff.mp hdata
      exact ⟨[], [], [], rfl, framing.decode_wait framing.nil, rfl⟩
  | cons item items ih =>
      have hframe := hwrite item List.mem_cons_self
      rw [List.flatMap_cons] at hdata
      by_cases hpart : data <+: write item ∧ data ≠ write item
      · exact ⟨[], item :: items, data, rfl,
          framing.decode_wait (hframe.wait hpart.1 hpart.2), by rw [hdata, List.flatMap_cons]⟩
      · have hwhole : write item <+: data := by
          rcases List.prefix_or_prefix_of_prefix ⟨more, hdata⟩
            (List.prefix_append (write item) (items.flatMap write)) with hle | hle
          · by_cases heq : data = write item
            · exact ⟨[], by rw [List.append_nil, heq]⟩
            · exact absurd ⟨hle, heq⟩ hpart
          · exact hle
        obtain ⟨tail, rfl⟩ := hwhole
        rw [List.append_assoc, List.append_cancel_left_eq] at hdata
        obtain ⟨first, others, rest, rfl, hdecode, hrest⟩ :=
          ih (fun other hmem => hwrite other (List.mem_cons_of_mem _ hmem)) hdata
        refine ⟨item :: first, others, rest, rfl, ?_, hrest⟩
        rw [framing.decode_found (next_append_found hframe tail), List.drop_left, hdecode]
        rfl

variable (found : σ → μ → σ) (refused : σ → ε → σ)

/-- However a stream is cut into pieces, `found` is called for the messages of the whole stream in
their order, the same data is left, and `refused` is called, behind all messages and once or more,
exactly if the stream is refused. -/
theorem serve_run (state : σ) (pieces : List (List α)) :
    ∃ times ≤ pieces.length,
      (times = 0 ↔ (framing.decode pieces.flatten).error = none) ∧
      pieces.foldl (framing.serve found refused) (state, []) =
        ((fun after => (framing.decode pieces.flatten).error.elim after (refused after))^[times]
          ((framing.decode pieces.flatten).messages.foldl found state),
        (framing.decode pieces.flatten).rest) := by
  induction pieces using List.reverseRecOn with
  | nil =>
      refine ⟨0, Nat.le_refl 0, ?_⟩
      rw [List.flatten_nil, framing.decode_wait framing.nil]
      exact ⟨Iff.intro (fun _ => rfl) fun _ => rfl, rfl⟩
  | append_singleton pieces piece ih =>
      obtain ⟨times, htimes, hzero, hrun⟩ := ih
      have hrest := framing.next_rest pieces.flatten
      rw [List.foldl_append, hrun, List.flatten_concat, decode_append, List.length_append]
      generalize framing.decode pieces.flatten = decoded at hzero hrest ⊢
      simp only [List.foldl_cons, List.foldl_nil, serve, Decoded.after, List.foldl_append]
      cases herror : decoded.error with
      | none =>
          rw [hzero.mpr herror, Function.iterate_zero, id]
          cases hnext : (framing.decode (decoded.rest ++ piece)).error with
          | none => exact ⟨0, Nat.zero_le _, Iff.intro (fun _ => rfl) fun _ => rfl, rfl⟩
          | some error => exact ⟨1, Nat.le_add_left 1 _, by simp, rfl⟩
      | some error =>
          rw [Decoded.end, herror] at hrest
          rw [framing.decode_refused (next_append_refused hrest piece)]
          refine ⟨times + 1, Nat.succ_le_succ htimes, by simp, ?_⟩
          rw [Function.iterate_succ_apply']
          rfl

/-- Callbacks that keep a relation between two states keep it over a read. -/
theorem serve_rel {τ : Type*} {R : σ → τ → Prop} {found : σ → μ → σ} {refused : σ → ε → σ}
    {found' : τ → μ → τ} {refused' : τ → ε → τ}
    (hfound : ∀ s t message, R s t → R (found s message) (found' t message))
    (hrefused : ∀ s t error, R s t → R (refused s error) (refused' t error)) {s : σ} {t : τ}
    (h : R s t) (buffer data : List α) :
    R (framing.serve found refused (s, buffer) data).1
      (framing.serve found' refused' (t, buffer) data).1 := by
  have hmessages : R ((framing.decode (buffer ++ data)).messages.foldl found s)
      ((framing.decode (buffer ++ data)).messages.foldl found' t) :=
    List.foldl_rel h fun message _ s t hst => hfound s t message hst
  unfold serve
  dsimp only
  cases (framing.decode (buffer ++ data)).error with
  | none => exact hmessages
  | some error => exact hrefused _ _ error hmessages

/-- What callbacks keep holds after a read. -/
theorem serve_invariant {P : σ → Prop} {found : σ → μ → σ} {refused : σ → ε → σ}
    (hfound : ∀ s message, P s → P (found s message))
    (hrefused : ∀ s error, P s → P (refused s error)) {s : σ} (h : P s)
    (buffer data : List α) : P (framing.serve found refused (s, buffer) data).1 := by
  have hmessages : P ((framing.decode (buffer ++ data)).messages.foldl found s) :=
    List.foldlRecOn _ _ h fun s hs message _ => hfound s message hs
  unfold serve
  dsimp only
  cases (framing.decode (buffer ++ data)).error with
  | none => exact hmessages
  | some error => exact hrefused _ error hmessages

end Framing

end CodeBlocks
