import CodeBlocks.Core.Bytes
import CodeBlocks.Core.Framing
import CodeBlocks.Core.Table
import CodeBlocks.Ai2048.Messages
import CodeBlocks.Kcp.Wire.Packets

/-!
# The codec of the 2048 programs

`ProtobufCodec` and `ProtobufDispatcher`: a message is sent with its length, the
name of its type and a checksum around its bytes, and received as soon as all of
that is in the input buffer of a connection. What the codec takes of the protobuf
library and the checksum of zlib are parameters, and so are the callbacks, which
work on a state of their own.
-/

namespace CodeBlocks.Ai2048

open Bytes

/-- `ProtobufCodec::ErrorCode`. -/
inductive ErrorCode where
  | noError
  | invalidLength
  | checkSumError
  | invalidNameLen
  | unknownMessageType
  | parseError
  deriving DecidableEq, Repr

abbrev kHeaderLen : Nat := 4

abbrev kMinMessageLen : Nat := 2 * kHeaderLen + 2

abbrev kMaxMessageLen : Nat := 64 * 1024 * 1024

/-- `asInt32`, and `Buffer::peekInt32`. -/
def asInt32 (buf : List UInt8) : Int := (get32be buf).toInt32.toInt

namespace ProtobufCodec

variable {δ μ σ : Type} (protobuf : Protobuf δ μ) (adler32 : UInt32 → List UInt8 → UInt32)

/-- `fillEmptyBuffer`. -/
def fillEmptyBuffer (message : μ) : List UInt8 :=
  let typeName := protobuf.getTypeName message
  let nameLen := typeName.length + 1
  let buf := put32be (UInt32.ofNat nameLen) ++ (typeName ++ [0])
  let buf := buf ++ protobuf.serialize message
  let checkSum := adler32 1 buf
  let buf := buf ++ put32be checkSum
  put32be (UInt32.ofNat buf.length) ++ buf

/-- `createMessage`. -/
def createMessage (typeName : List UInt8) : Option μ :=
  match protobuf.findMessageTypeByName typeName with
  | some descriptor => protobuf.getPrototype descriptor
  | none => none

/-- `parse`, for a length that has been checked. -/
def parse (buf : List UInt8) (len : Nat) : Option μ × ErrorCode :=
  let expectedCheckSum := asInt32 (buf.drop (len - kHeaderLen))
  let checkSum := (adler32 1 (buf.take (len - kHeaderLen))).toInt32.toInt
  if checkSum = expectedCheckSum then
    let nameLen := asInt32 buf
    if nameLen ≥ 2 ∧ nameLen ≤ len - 2 * kHeaderLen then
      let typeName := (buf.drop kHeaderLen).take (nameLen.toNat - 1)
      match createMessage protobuf typeName with
      | some message =>
        let dataLen := len - nameLen.toNat - 2 * kHeaderLen
        let data := (buf.drop (kHeaderLen + nameLen.toNat)).take dataLen
        let (ok, message) := protobuf.parseFromArray message data
        (some message, if ok then .noError else .parseError)
      | none => (none, .unknownMessageType)
    else (none, .invalidNameLen)
  else (none, .checkSumError)

/-- The loop of `onMessage`. The first argument bounds the turns. -/
def onMessageLoop (messageCallback : σ → μ → σ) (errorCallback : σ → ErrorCode → σ) :
    Nat → σ → List UInt8 → σ × List UInt8
  | 0, state, buf => (state, buf)
  | turns + 1, state, buf =>
    if buf.length ≥ kMinMessageLen + kHeaderLen then
      let len := asInt32 buf
      if len > kMaxMessageLen ∨ len < kMinMessageLen then
        (errorCallback state .invalidLength, buf)
      else if buf.length ≥ len.toNat + kHeaderLen then
        match parse protobuf adler32 (buf.drop kHeaderLen) len.toNat with
        | (some message, .noError) =>
          onMessageLoop messageCallback errorCallback turns (messageCallback state message)
            (buf.drop (kHeaderLen + len.toNat))
        | (_, errorCode) => (errorCallback state errorCode, buf)
      else (state, buf)
    else (state, buf)

/-- `onMessage`: the state of the callbacks and what stays in the buffer. -/
def onMessage (messageCallback : σ → μ → σ) (errorCallback : σ → ErrorCode → σ) (state : σ)
    (buf : List UInt8) : σ × List UInt8 :=
  onMessageLoop protobuf adler32 messageCallback errorCallback (buf.length + 1) state buf

/-- A read of a connection: what arrives is appended to its input buffer, and `onMessage` runs. -/
def read (messageCallback : σ → μ → σ) (errorCallback : σ → ErrorCode → σ)
    (state : σ × List UInt8) (bytes : List UInt8) : σ × List UInt8 :=
  onMessage protobuf adler32 messageCallback errorCallback state.1 (state.2 ++ bytes)

/-- The format of the header of `codec.h`, for a type that the pool knows and data that its parser
accepts. Any byte may stand behind the name. -/
def IsTransport (frame : List UInt8) (message : μ) : Prop :=
  ∃ (typeName data : List UInt8) (terminator : UInt8) (empty : μ) (body : List UInt8),
    body = put32be (UInt32.ofNat (typeName.length + 1)) ++ (typeName ++ [terminator]) ++ data ∧
    frame = put32be (UInt32.ofNat (body.length + 4)) ++ (body ++ put32be (adler32 1 body)) ∧
    typeName ≠ [] ∧ body.length + 4 ≤ kMaxMessageLen ∧
    createMessage protobuf typeName = some empty ∧
    protobuf.parseFromArray empty data = (true, message)

/-- The front of the input buffer, as a turn of the loop sees it. -/
def front (buf : List UInt8) : Front μ ErrorCode :=
  if buf.length < kMinMessageLen + kHeaderLen then .wait
  else if asInt32 buf > kMaxMessageLen ∨ asInt32 buf < kMinMessageLen then
    .refused .invalidLength
  else if buf.length < (asInt32 buf).toNat + kHeaderLen then .wait
  else
    match parse protobuf adler32 (buf.drop kHeaderLen) (asInt32 buf).toNat with
    | (some message, .noError) => .found message (kHeaderLen + (asInt32 buf).toNat)
    | (_, errorCode) => .refused errorCode

variable {protobuf adler32}

theorem lens : kHeaderLen = 4 ∧ kMinMessageLen = 10 ∧ kMaxMessageLen = 67108864 :=
  ⟨rfl, rfl, rfl⟩

theorem asInt32_append {buf : List UInt8} (h : 4 ≤ buf.length) (more : List UInt8) :
    asInt32 (buf ++ more) = asInt32 buf := by
  rw [asInt32, asInt32, get32be_append h]

/-- A length that was written is read back. -/
theorem asInt32_put32be {n : Nat} (h : n < 2 ^ 31) (rest : List UInt8) :
    asInt32 (put32be (UInt32.ofNat n) ++ rest) = n := by
  rw [asInt32, get32be_put32be]
  exact Int32.toInt_ofNat_of_lt h

/-- `parse` reads nothing behind the length it is given. -/
theorem parse_append {buf : List UInt8} {len : Nat} (hlow : kMinMessageLen ≤ len)
    (hlen : len ≤ buf.length) (more : List UInt8) :
    parse protobuf adler32 (buf ++ more) len = parse protobuf adler32 buf len := by
  obtain ⟨hheader, hmin, -⟩ := lens
  have hcheck : 4 ≤ (buf.drop (len - kHeaderLen)).length := by
    rw [List.length_drop]
    omega
  unfold parse
  dsimp only
  rw [List.drop_append_of_le_length (by omega), asInt32_append hcheck,
    List.take_append_of_le_length (by omega), asInt32_append (by omega)]
  by_cases hname : asInt32 buf ≥ 2 ∧ asInt32 buf ≤ len - 2 * kHeaderLen
  · have hnameLen : (asInt32 buf).toNat + 2 * kHeaderLen ≤ len := by omega
    rw [List.drop_append_of_le_length (by omega), List.drop_append_of_le_length (by omega),
      List.take_append_of_le_length (by rw [List.length_drop]; omega),
      List.take_append_of_le_length (by rw [List.length_drop]; omega)]
  · simp only [if_neg hname]

/-- A turn that sees a whole frame does not look behind it. -/
theorem front_append {buf : List UInt8} (h : front protobuf adler32 buf ≠ .wait)
    (more : List UInt8) :
    front protobuf adler32 (buf ++ more) = front protobuf adler32 buf := by
  obtain ⟨hheader, hmin, hmax⟩ := lens
  unfold front at h ⊢
  split at h
  · exact absurd rfl h
  rename_i hlong
  rw [asInt32_append (by omega), if_neg hlong,
    if_neg (by rw [List.length_append]; omega)]
  split at h
  · rename_i hbad
    rw [if_pos hbad, if_pos hbad]
  rename_i hgood
  rw [if_neg hgood, if_neg hgood]
  split at h
  · exact absurd rfl h
  rename_i hwhole
  rw [if_neg hwhole, if_neg (by rw [List.length_append]; omega),
    List.drop_append_of_le_length (by omega),
    parse_append (by omega) (by rw [List.length_drop]; omega)]

/-- What a turn has seen when it finds a message. -/
theorem front_found_iff {buf : List UInt8} {message : μ} {size : Nat} :
    front protobuf adler32 buf = .found message size ↔
      ∃ len, kMinMessageLen ≤ len ∧ len ≤ kMaxMessageLen ∧ size = kHeaderLen + len ∧
        size ≤ buf.length ∧ asInt32 buf = len ∧
        parse protobuf adler32 (buf.drop kHeaderLen) len = (some message, .noError) := by
  obtain ⟨hheader, hmin, hmax⟩ := lens
  unfold front
  constructor
  · intro h
    split at h
    · cases h
    split at h
    · cases h
    rename_i hgood
    split at h
    · cases h
    rename_i hwhole
    split at h
    · rename_i found hparse
      rw [Front.found.injEq] at h
      obtain ⟨rfl, rfl⟩ := h
      exact ⟨(asInt32 buf).toNat, by omega, by omega, rfl, by omega, by omega, hparse⟩
    · cases h
  · rintro ⟨len, hlow, hhigh, rfl, hlen, hword, hparse⟩
    rw [if_neg (by omega), hword, if_neg (by omega), Int.toNat_natCast, if_neg (by omega), hparse]

variable (protobuf adler32) in
/-- The codec as a reader of frames. -/
def framing : Framing UInt8 μ ErrorCode where
  next := front protobuf adler32
  nil := rfl
  settled := front_append
  bounds := by
    intro buf message size h
    obtain ⟨hheader, -⟩ := lens
    obtain ⟨len, hlow, hhigh, rfl, hle, -⟩ := front_found_iff.mp h
    exact ⟨by omega, hle⟩
  own := by
    intro buf message size h
    obtain ⟨hheader, -⟩ := lens
    obtain ⟨len, hlow, hhigh, rfl, hle, hword, hparse⟩ := front_found_iff.mp h
    have hsplit := List.take_append_drop (kHeaderLen + len) buf
    have hown : (buf.take (kHeaderLen + len)).length = kHeaderLen + len := by
      rw [List.length_take, Nat.min_eq_left hle]
    refine front_found_iff.mpr ⟨len, hlow, hhigh, rfl, Nat.le_of_eq hown.symm, ?_, ?_⟩
    · rw [← hword, ← asInt32_append (by omega) (buf.drop (kHeaderLen + len)), hsplit]
    · rw [← hparse, ← parse_append hlow (by rw [List.length_drop]; omega)
        (buf.drop (kHeaderLen + len)), ← List.drop_append_of_le_length (by omega), hsplit]

theorem eq_of_toInt32 {v w : UInt32} (h : v.toInt32.toInt = w.toInt32.toInt) : v = w :=
  congrArg Int32.toUInt32 (Int32.toInt_inj.mp h)

/-- A length that is not negative is what was written. -/
theorem get32be_of_asInt32 {buf : List UInt8} {n : Nat} (hword : asInt32 buf = n) :
    get32be buf = UInt32.ofNat n := by
  have hbound := Int32.toInt_lt (get32be buf).toInt32
  have hsigned : (UInt32.ofNat n).toInt32.toInt = n := by
    apply Int32.toInt_ofNat_of_lt
    rw [asInt32] at hword
    omega
  apply eq_of_toInt32
  rw [hsigned]
  exact hword

/-- The bytes in front of the checksum of an accepted message. -/
theorem take_eq_body {buf : List UInt8} {n : Nat} (dataLen : Nat) (hname : 2 ≤ n)
    (hword : asInt32 buf = n) (hlen : kHeaderLen + n + dataLen ≤ buf.length) :
    ∃ terminator, buf.take (kHeaderLen + n + dataLen) =
      put32be (UInt32.ofNat (((buf.drop kHeaderLen).take (n - 1)).length + 1)) ++
        ((buf.drop kHeaderLen).take (n - 1) ++ [terminator]) ++
        (buf.drop (kHeaderLen + n)).take dataLen := by
  obtain ⟨hheader, -⟩ := lens
  have hnameLen : ((buf.drop kHeaderLen).take (n - 1)).length + 1 = n := by
    rw [List.length_take, List.length_drop]
    omega
  have hmore : (buf.drop (kHeaderLen + (n - 1))) ≠ [] := by
    apply List.ne_nil_of_length_pos
    rw [List.length_drop]
    omega
  obtain ⟨terminator, rest, hrest⟩ := List.exists_cons_of_ne_nil hmore
  refine ⟨terminator, ?_⟩
  have hone : kHeaderLen + n = kHeaderLen + (n - 1) + 1 := by omega
  rw [hnameLen, ← get32be_of_asInt32 hword, put32be_get32be (by omega), List.take_add, hone,
    List.take_add, List.take_add, hrest, hheader]
  simp only [List.take_succ_cons, List.take_zero, List.append_assoc]

/-- A message is found in exactly the frames of the format. -/
theorem isFrame_iff {frame : List UInt8} {message : μ} :
    (framing protobuf adler32).IsFrame frame message ↔
      IsTransport protobuf adler32 frame message := by
  obtain ⟨hheader, hmin, hmax⟩ := lens
  constructor
  · intro h
    obtain ⟨len, hlow, hhigh, hsize, -, hword, hparse⟩ := front_found_iff.mp h
    have hframe : put32be (UInt32.ofNat len) ++ frame.drop kHeaderLen = frame := by
      rw [← get32be_of_asInt32 hword, put32be_get32be (by omega)]
      exact List.take_append_drop 4 frame
    have hlen : (frame.drop kHeaderLen).length = len := by
      rw [List.length_drop]
      omega
    generalize frame.drop kHeaderLen = buf at hframe hlen hparse
    unfold parse at hparse
    dsimp only at hparse
    split at hparse
    · rename_i hsum
      split at hparse
      · rename_i hname
        split at hparse
        · rename_i empty hcreate
          rw [Prod.mk.injEq, Option.some.injEq] at hparse
          obtain ⟨n, hn⟩ := Int.eq_ofNat_of_zero_le (show 0 ≤ asInt32 buf by omega)
          rw [hn] at hname hcreate hparse
          simp only [Int.toNat_natCast] at hcreate hparse
          obtain ⟨terminator, hbody⟩ := take_eq_body (len - n - 2 * kHeaderLen)
            (by omega) hn (by omega)
          have hend : kHeaderLen + n + (len - n - 2 * kHeaderLen) = len - kHeaderLen := by omega
          rw [hend] at hbody
          have hbodyLen : (buf.take (len - kHeaderLen)).length + 4 = len := by
            rw [List.length_take]
            omega
          have hcheck : (buf.drop (len - kHeaderLen)).length = 4 := by
            rw [List.length_drop]
            omega
          have hsumBytes : put32be (adler32 1 (buf.take (len - kHeaderLen))) =
              buf.drop (len - kHeaderLen) := by
            rw [eq_of_toInt32 hsum,
              put32be_get32be (Nat.le_of_eq hcheck.symm), ← hcheck, List.take_length]
          refine ⟨_, _, terminator, empty, _, hbody, ?_, ?_, ?_, hcreate, ?_⟩
          · rw [hbodyLen, hsumBytes, List.take_append_drop, hframe]
          · apply List.ne_nil_of_length_pos
            rw [List.length_take, List.length_drop]
            omega
          · rw [hbodyLen]
            exact hhigh
          · obtain ⟨hmessage, hok⟩ := hparse
            split at hok
            · rename_i hparsed
              exact Prod.ext hparsed hmessage
            · cases hok
        · cases hparse
      · cases hparse
    · cases hparse
  · rintro ⟨typeName, data, terminator, empty, body, hbody, rfl, hname, hlen, hcreate, hparsed⟩
    have hpos := List.length_pos_of_ne_nil hname
    have hbodyLen : body.length = typeName.length + data.length + 5 := by
      rw [hbody]
      simp only [List.length_append, length_put32be, List.length_singleton]
      omega
    have hword : asInt32 (put32be (UInt32.ofNat (body.length + 4)) ++
        (body ++ put32be (adler32 1 body))) = (body.length + 4 : Nat) :=
      asInt32_put32be (by omega) _
    refine front_found_iff.mpr ⟨body.length + 4, by omega, hlen, ?_, Nat.le_refl _, hword, ?_⟩
    · simp only [List.length_append, length_put32be]
    have hdrop : (put32be (UInt32.ofNat (body.length + 4)) ++
        (body ++ put32be (adler32 1 body))).drop kHeaderLen = body ++ put32be (adler32 1 body) :=
      List.drop_left' (length_put32be _)
    have hend : body.length + 4 - kHeaderLen = body.length := by omega
    have hsum : asInt32 (put32be (adler32 1 body)) = (adler32 1 body).toInt32.toInt := by
      rw [asInt32, ← List.append_nil (put32be _), get32be_put32be]
    have hnameLen : asInt32 (body ++ put32be (adler32 1 body)) = (typeName.length + 1 : Nat) := by
      rw [hbody]
      simp only [List.append_assoc]
      exact asInt32_put32be (by omega) _
    rw [hdrop]
    unfold parse
    dsimp only
    rw [hend, List.drop_left, List.take_left, if_pos hsum.symm, hnameLen, if_pos (by omega),
      Int.toNat_natCast, Nat.add_sub_cancel]
    have htype : ((body ++ put32be (adler32 1 body)).drop kHeaderLen).take typeName.length =
        typeName := by
      rw [hbody]
      simp only [List.append_assoc]
      exact List.take_left
    have hdata : ((body ++ put32be (adler32 1 body)).drop (kHeaderLen + (typeName.length + 1))).take
        (body.length + 4 - (typeName.length + 1) - 2 * kHeaderLen) = data := by
      have hdataLen : body.length + 4 - (typeName.length + 1) - 2 * kHeaderLen = data.length := by
        omega
      have hfront : kHeaderLen + (typeName.length + 1) =
          (put32be (UInt32.ofNat (typeName.length + 1)) ++ (typeName ++ [terminator])).length := by
        simp only [List.length_append, length_put32be, List.length_singleton]
      rw [hdataLen, hfront, hbody, List.append_assoc _ data, List.drop_left, List.take_left]
    rw [htype, hcreate, hdata]
    simp only [hparsed, ite_true]

/-- The loop calls back for what the reader finds. -/
theorem onMessageLoop_eq (messageCallback : σ → μ → σ) (errorCallback : σ → ErrorCode → σ)
    {turns : Nat} {buf : List UInt8} (h : buf.length < turns) (state : σ) :
    onMessageLoop protobuf adler32 messageCallback errorCallback turns state buf =
      (((framing protobuf adler32).decode buf).error.elim
          (((framing protobuf adler32).decode buf).messages.foldl messageCallback state)
          (errorCallback (((framing protobuf adler32).decode buf).messages.foldl
            messageCallback state)),
        ((framing protobuf adler32).decode buf).rest) := by
  induction turns generalizing buf state with
  | zero => cases h
  | succ turns ih =>
      have hturn : onMessageLoop protobuf adler32 messageCallback errorCallback (turns + 1) state
          buf =
          match front protobuf adler32 buf with
          | .wait => (state, buf)
          | .refused errorCode => (errorCallback state errorCode, buf)
          | .found message size => onMessageLoop protobuf adler32 messageCallback errorCallback
              turns (messageCallback state message) (buf.drop size) := by
        rw [onMessageLoop, front]
        by_cases hlong : buf.length ≥ kMinMessageLen + kHeaderLen
        · rw [if_pos hlong, if_neg (Nat.not_lt.mpr hlong)]
          by_cases hbad : asInt32 buf > kMaxMessageLen ∨ asInt32 buf < kMinMessageLen
          · rw [if_pos hbad, if_pos hbad]
          · rw [if_neg hbad, if_neg hbad]
            by_cases hwhole : buf.length ≥ (asInt32 buf).toNat + kHeaderLen
            · rw [if_pos hwhole, if_neg (Nat.not_lt.mpr hwhole)]
              rcases parse protobuf adler32 (buf.drop kHeaderLen) (asInt32 buf).toNat with
                ⟨_ | message, errorCode⟩
              · rfl
              · cases errorCode <;> rfl
            · rw [if_neg hwhole, if_pos (Nat.lt_of_not_le hwhole)]
        · rw [if_neg hlong, if_pos (Nat.lt_of_not_le hlong)]
      rw [hturn]
      cases hfront : front protobuf adler32 buf with
      | wait =>
          rw [(framing protobuf adler32).decode_wait hfront]
          rfl
      | refused errorCode =>
          rw [(framing protobuf adler32).decode_refused hfront]
          rfl
      | found message size =>
          obtain ⟨hpos, hle⟩ := (framing protobuf adler32).bounds hfront
          have hless : (buf.drop size).length < turns := by
            rw [List.length_drop]
            omega
          rw [(framing protobuf adler32).decode_found hfront]
          exact ih hless (messageCallback state message)

/-- A read is a turn of the reader of frames. -/
theorem read_eq_serve (messageCallback : σ → μ → σ) (errorCallback : σ → ErrorCode → σ) :
    read protobuf adler32 messageCallback errorCallback =
      (framing protobuf adler32).serve messageCallback errorCallback := by
  ext state bytes : 2
  exact onMessageLoop_eq messageCallback errorCallback (Nat.lt_succ_self _) state.1

variable (protobuf) in
/-- The library parses the data of a message to the message itself. -/
structure Transmits (message : μ) : Prop where
  name : protobuf.getTypeName message ≠ []
  parsed : ∃ empty, createMessage protobuf (protobuf.getTypeName message) = some empty ∧
    protobuf.parseFromArray empty (protobuf.serialize message) = (true, message)

/-- There is no message at the front of the buffer yet: its length is missing, or a part of it. -/
def Incomplete (buf : List UInt8) : Prop :=
  buf.length < kMinMessageLen + kHeaderLen ∨
    kMinMessageLen ≤ asInt32 buf ∧ asInt32 buf ≤ kMaxMessageLen ∧
      buf.length < kHeaderLen + asInt32 buf

variable (protobuf adler32) in
/-- The codec waits exactly for a frame that is not complete. -/
theorem front_wait_iff {buf : List UInt8} :
    front protobuf adler32 buf = .wait ↔ Incomplete buf := by
  obtain ⟨hheader, hmin, hmax⟩ := lens
  unfold front Incomplete
  constructor
  · intro h
    split at h
    · rename_i hshort
      exact Or.inl hshort
    split at h
    · cases h
    split at h
    · exact Or.inr ⟨by omega, by omega, by omega⟩
    · split at h <;> cases h
  · rintro (hshort | ⟨hlow, hhigh, hpart⟩)
    · rw [if_pos hshort]
    · split
      · rfl
      rw [if_neg (by omega), if_pos (by omega)]

/-- The frame of a message that is not too long. -/
theorem Transmits.isTransport {message : μ} (h : Transmits protobuf message)
    (hlen : (fillEmptyBuffer protobuf adler32 message).length ≤ kHeaderLen + kMaxMessageLen) :
    IsTransport protobuf adler32 (fillEmptyBuffer protobuf adler32 message) message := by
  obtain ⟨hheader, hmin, hmax⟩ := lens
  obtain ⟨empty, hcreate, hparsed⟩ := h.parsed
  refine ⟨_, _, 0, empty, _, rfl, ?_, h.name, ?_, hcreate, hparsed⟩
  · rw [fillEmptyBuffer]
    simp only [List.length_append, length_put32be]
  · simp only [fillEmptyBuffer, List.length_append, length_put32be] at hlen
    simp only [List.length_append, length_put32be]
    omega

/-- The frame of a message that is too long is refused. -/
theorem front_too_long {message : μ}
    (hlow : kHeaderLen + kMaxMessageLen < (fillEmptyBuffer protobuf adler32 message).length)
    (hhigh : (fillEmptyBuffer protobuf adler32 message).length < 2 ^ 31) (more : List UInt8) :
    front protobuf adler32 (fillEmptyBuffer protobuf adler32 message ++ more) =
      .refused .invalidLength := by
  obtain ⟨hheader, hmin, hmax⟩ := lens
  have hlong : kMinMessageLen + kHeaderLen ≤
      (fillEmptyBuffer protobuf adler32 message ++ more).length := by
    rw [List.length_append]
    omega
  obtain ⟨buf, hbuf⟩ : ∃ buf, fillEmptyBuffer protobuf adler32 message =
      put32be (UInt32.ofNat buf.length) ++ buf := ⟨_, rfl⟩
  rw [hbuf, List.length_append, length_put32be] at hlow hhigh
  have hword : asInt32 (fillEmptyBuffer protobuf adler32 message ++ more) = buf.length := by
    rw [hbuf, List.append_assoc]
    exact asInt32_put32be (by omega) _
  rw [front, if_neg (Nat.not_lt.mpr hlong), if_pos (Or.inl (by omega))]

/-- A stream is some frames of the transport format, with their messages, and a rest with no frame
at its front. -/
structure Splits (protobuf : Protobuf δ μ) (adler32 : UInt32 → List UInt8 → UInt32)
    (stream : List UInt8) (frames : List (List UInt8)) (messages : List μ) (rest : List UInt8) :
    Prop where
  stream_eq : stream = frames.flatten ++ rest
  frames : List.Forall₂ (IsTransport protobuf adler32) frames messages
  rest : ∀ frame message, frame <+: rest → ¬ IsTransport protobuf adler32 frame message

/-- In one way only. -/
theorem Splits.unique {stream rest rest' : List UInt8} {frames frames' : List (List UInt8)}
    {messages messages' : List μ} (h : Splits protobuf adler32 stream frames messages rest)
    (h' : Splits protobuf adler32 stream frames' messages' rest') :
    frames = frames' ∧ messages = messages' ∧ rest = rest' :=
  Framing.split_unique (h.frames.imp fun _ _ => isFrame_iff.mpr)
    (h'.frames.imp fun _ _ => isFrame_iff.mpr)
    (fun frame message hle hframe => h.rest frame message hle (isFrame_iff.mp hframe))
    (fun frame message hle hframe => h'.rest frame message hle (isFrame_iff.mp hframe))
    (h.stream_eq.symm.trans h'.stream_eq)

/-- Every stream splits in one way into the frames at its front, as many as there are, and a rest.
Their messages are what a connection delivers, in their order and whatever the pieces are in which
the stream arrives, and the rest stays in the buffer. If it is more than a part of a message, the
error callback is called, again with every later read, and nothing else is delivered. In each read
it is called once at most, behind the messages. -/
theorem read_stream (protobuf : Protobuf δ μ) (adler32 : UInt32 → List UInt8 → UInt32)
    (stream : List UInt8) :
    (∃ frames messages error rest,
      Splits protobuf adler32 stream frames messages rest ∧
      (∀ frames' messages' rest', Splits protobuf adler32 stream frames' messages' rest' →
        frames' = frames ∧ messages' = messages ∧ rest' = rest) ∧
      (error = none ↔ Incomplete rest) ∧
      ∀ (σ : Type) (messageCallback : σ → μ → σ) (errorCallback : σ → ErrorCode → σ) (state : σ)
        (pieces : List (List UInt8)), pieces.flatten = stream →
        ∃ times ≤ pieces.length, (times = 0 ↔ error = none) ∧
          pieces.foldl (read protobuf adler32 messageCallback errorCallback) (state, []) =
            ((fun after => error.elim after (errorCallback after))^[times]
              (messages.foldl messageCallback state), rest)) ∧
    ∀ buf bytes : List UInt8, ∃ (messages : List μ) (error : Option ErrorCode) (rest : List UInt8),
      ∀ (σ : Type) (messageCallback : σ → μ → σ) (errorCallback : σ → ErrorCode → σ) (state : σ),
        read protobuf adler32 messageCallback errorCallback (state, buf) bytes =
          (error.elim (messages.foldl messageCallback state)
            (errorCallback (messages.foldl messageCallback state)), rest) := by
  constructor
  · obtain ⟨messages, error, rest, hdecode⟩ : ∃ messages error rest,
        (framing protobuf adler32).decode stream = ⟨messages, error, rest⟩ := ⟨_, _, _, rfl⟩
    obtain ⟨frames, hframes, hstream, hstop⟩ := Framing.decode_eq_iff.mp hdecode
    have hsplits : Splits protobuf adler32 stream frames messages rest := by
      refine ⟨hstream, hframes.imp fun _ _ => isFrame_iff.mp, ?_⟩
      rintro frame message ⟨tail, rfl⟩ htransport
      have hfound := Framing.next_append_found (isFrame_iff.mpr htransport) tail
      rw [hstop] at hfound
      cases error <;> cases hfound
    refine ⟨frames, messages, error, rest, hsplits, ?_, ?_, ?_⟩
    · exact fun frames' messages' rest' hother => hother.unique hsplits
    · rw [← front_wait_iff protobuf adler32]
      change _ ↔ (framing protobuf adler32).next rest = _
      rw [hstop]
      cases error with
      | none => exact Iff.intro (fun _ => rfl) fun _ => rfl
      | some errorCode => exact Iff.intro nofun nofun
    · intro σ messageCallback errorCallback state pieces hpieces
      rw [read_eq_serve]
      have hrun := (framing protobuf adler32).serve_run messageCallback errorCallback state pieces
      rw [hpieces, hdecode] at hrun
      exact hrun
  · intro buf bytes
    refine ⟨((framing protobuf adler32).decode (buf ++ bytes)).messages,
      ((framing protobuf adler32).decode (buf ++ bytes)).error,
      ((framing protobuf adler32).decode (buf ++ bytes)).rest, ?_⟩
    intro σ messageCallback errorCallback state
    rw [read_eq_serve]
    rfl

variable (protobuf adler32) in
/-- A connection that writes down what is delivered and which errors are reported. -/
def readAll (pieces : List (List UInt8)) : List (Except ErrorCode μ) × List UInt8 :=
  pieces.foldl (read protobuf adler32 (fun log message => log ++ [.ok message])
    fun log errorCode => log ++ [.error errorCode]) ([], [])

theorem foldl_log (messages : List μ) (log : List (Except ErrorCode μ)) :
    messages.foldl (fun log message => log ++ [.ok message]) log = log ++ messages.map .ok := by
  induction messages generalizing log with
  | nil => exact (List.append_nil log).symm
  | cons message messages ih => rw [List.foldl_cons, ih, List.map_cons, List.append_assoc]; rfl

/-- A message that is too long is refused with all that follows it. -/
theorem decode_too_long {messages : List μ} (h : ∀ message ∈ messages, Transmits protobuf message ∧
      (fillEmptyBuffer protobuf adler32 message).length < 2 ^ 31)
    (hlong : ∃ message ∈ messages,
      kHeaderLen + kMaxMessageLen < (fillEmptyBuffer protobuf adler32 message).length) :
    ((framing protobuf adler32).decode
      (messages.flatMap (fillEmptyBuffer protobuf adler32))).error ≠ none := by
  induction messages with
  | nil =>
      obtain ⟨message, hmem, -⟩ := hlong
      cases hmem
  | cons message messages ih =>
      obtain ⟨htransmits, hhigh⟩ := h message List.mem_cons_self
      rw [List.flatMap_cons]
      by_cases hlen :
          (fillEmptyBuffer protobuf adler32 message).length ≤ kHeaderLen + kMaxMessageLen
      · have hframe := isFrame_iff.mpr (htransmits.isTransport hlen)
        have hdecode := Framing.decode_frames (.cons hframe .nil)
          (messages.flatMap (fillEmptyBuffer protobuf adler32))
        rw [List.flatten_singleton] at hdecode
        rw [hdecode]
        apply ih fun other hmem => h other (List.mem_cons_of_mem _ hmem)
        obtain ⟨long, hmem, hlong⟩ := hlong
        rcases List.mem_cons.mp hmem with rfl | htail
        · omega
        · exact ⟨long, htail, hlong⟩
      · have hfront := front_too_long (by omega) hhigh
          (messages.flatMap (fillEmptyBuffer protobuf adler32))
        rw [(framing protobuf adler32).decode_refused hfront]
        exact nofun

/-- Messages that are sent one after the other are delivered without an error, in whatever pieces
they arrive, if and only if none is longer than the receiver allows. The sender does not check
that. -/
theorem readAll_iff {messages : List μ} (h : ∀ message ∈ messages, Transmits protobuf message ∧
      (fillEmptyBuffer protobuf adler32 message).length < 2 ^ 31)
    {pieces : List (List UInt8)}
    (hpieces : pieces.flatten = messages.flatMap (fillEmptyBuffer protobuf adler32)) :
    readAll protobuf adler32 pieces = (messages.map .ok, []) ↔
      ∀ message ∈ messages,
        (fillEmptyBuffer protobuf adler32 message).length ≤ kHeaderLen + kMaxMessageLen := by
  obtain ⟨times, -, hzero, hrun⟩ := (framing protobuf adler32).serve_run
    (fun log message => log ++ [Except.ok message])
    (fun log errorCode => log ++ [Except.error errorCode]) [] pieces
  rw [← read_eq_serve, hpieces] at hrun
  rw [hpieces] at hzero
  rw [readAll, hrun]
  constructor
  · intro hall
    by_contra hlong
    push Not at hlong
    have herror := decode_too_long h hlong
    generalize (framing protobuf adler32).decode
      (messages.flatMap (fillEmptyBuffer protobuf adler32)) = decoded at hzero hall herror
    obtain ⟨errorCode, hcode⟩ := Option.ne_none_iff_exists'.mp herror
    cases times with
    | zero => exact herror (hzero.mp rfl)
    | succ times =>
        rw [Function.iterate_succ_apply', hcode, Prod.mk.injEq] at hall
        have hmem : Except.error errorCode ∈ messages.map (Except.ok (ε := ErrorCode)) := by
          rw [← hall.1]
          exact List.mem_append_right _ List.mem_cons_self
        simp at hmem
  · intro hlen
    have hframes : List.Forall₂ (framing protobuf adler32).IsFrame
        (messages.map (fillEmptyBuffer protobuf adler32)) messages := by
      rw [List.forall₂_map_left_iff, List.forall₂_same]
      exact fun message hmem =>
        isFrame_iff.mpr ((h message hmem).1.isTransport (hlen message hmem))
    have hdecode := Framing.decode_frames hframes []
    rw [List.append_nil, ← List.flatMap_def, Framing.decode_wait _ (Framing.nil _)] at hdecode
    rw [hzero.mpr (by rw [hdecode]; rfl), hdecode, Function.iterate_zero, id]
    simp only [Decoded.after, List.append_nil, foldl_log, List.nil_append]

/-- Messages of the generated types get through. -/
theorem transmits_tile {wire : WireFormat} (hwire : wire.Lawful) (others : Protobuf δ μ)
    {tile : CSAI2048Tile} (h : tile.Fits wire) :
    Transmits (aiProtobuf wire others) (.csai2048Tile tile) where
  name := by
    change nameBytes "aiproto.CSAI2048Tile" ≠ []
    decide
  parsed := by
    refine ⟨.csai2048Tile .empty, rfl, ?_⟩
    simp only [aiProtobuf, CSAI2048Tile.parse_serialize hwire h]

theorem transmits_move {wire : WireFormat} (hwire : wire.Lawful) (others : Protobuf δ μ)
    {move : SCAI2048Move} (h : IsInt32 move.type) :
    Transmits (aiProtobuf wire others) (.scai2048Move move) where
  name := by
    change nameBytes "aiproto.SCAI2048Move" ≠ []
    decide
  parsed := by
    refine ⟨.scai2048Move .empty, rfl, ?_⟩
    simp only [aiProtobuf, SCAI2048Move.parse_serialize hwire h]

/-- A board and a move. -/
def sampleMessages : List (Message Empty) :=
  [.csai2048Tile ⟨[2, 4, 0, 2048], false⟩, .scai2048Move ⟨3⟩]

/-- What is sent for them. -/
def sampleStream : List UInt8 :=
  sampleMessages.flatMap (fillEmptyBuffer (aiProtobuf varintFormat noOthers) Kcp.Zlib.adler32)

/-- A stream of some messages in two reads. -/
theorem readAll_iff_sampleStream :
    readAll (aiProtobuf varintFormat noOthers) Kcp.Zlib.adler32
      [sampleStream.take 7, sampleStream.drop 7] = (sampleMessages.map .ok, []) := by
  have hlens : ∀ message ∈ sampleMessages, (fillEmptyBuffer (aiProtobuf varintFormat noOthers)
      Kcp.Zlib.adler32 message).length ≤ 100 := by decide
  refine (readAll_iff ?_ ?_).mpr fun message hmem => (hlens message hmem).trans (by decide)
  · intro message hmem
    refine ⟨?_, (hlens message hmem).trans_lt (by decide)⟩
    rcases List.mem_pair.mp hmem with rfl | rfl
    · exact transmits_tile varintFormat_lawful noOthers ⟨by simp [IsInt32], by decide⟩
    · exact transmits_move varintFormat_lawful noOthers (by simp [IsInt32])
  · rw [List.flatten_cons, List.flatten_singleton, List.take_append_drop]
    rfl

end ProtobufCodec

/-- `ProtobufDispatcher`. -/
structure ProtobufDispatcher (δ μ σ : Type) where
  defaultCallback : σ → μ → σ
  callbacks : Table δ (σ → μ → σ) := ∅

namespace ProtobufDispatcher

variable {δ μ σ : Type} [DecidableEq δ]

/-- `registerMessageCallback`. -/
def registerMessageCallback (dispatcher : ProtobufDispatcher δ μ σ) (descriptor : δ)
    (callback : σ → μ → σ) : ProtobufDispatcher δ μ σ :=
  { dispatcher with callbacks := AList.insert descriptor callback dispatcher.callbacks }

/-- `onProtobufMessage`. -/
def onProtobufMessage (protobuf : Protobuf δ μ) (dispatcher : ProtobufDispatcher δ μ σ) (state : σ)
    (message : μ) : σ :=
  match dispatcher.callbacks.lookup (protobuf.getDescriptor message) with
  | some callback => callback state message
  | none => dispatcher.defaultCallback state message

end ProtobufDispatcher

end CodeBlocks.Ai2048
