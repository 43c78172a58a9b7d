import Mathlib.Algebra.Group.Nat.Defs
import CodeBlocks.Core.Stream

/-!
# Requests to the relay

`ServerConnMeta`: the metadata of a client connection with its decryptor and the
deciphered bytes, and the parser of the request at their front. The parser asks
for more bytes than it is about to read, so a request is complete only when a
byte follows it.
-/

namespace CodeBlocks.Relay

/-- `ServerConnMeta::ReqState`. -/
inductive ReqState where
  | reqAddrType
  | reqDstAddrVarlen
  | reqDstAddr
  | reqDstPort
  | reqDone
  deriving DecidableEq, Repr

abbrev addrTypeIpv4 : UInt8 := 1

abbrev addrTypeHost : UInt8 := 3

abbrev addrTypeIpv6 : UInt8 := 4

/-- A length passed on as a C `int`. -/
def staticCastInt (n : Nat) : Int := (Int32.ofNat n).toInt

/-- A size below the sign bit keeps its value as an `int`. -/
theorem staticCastInt_eq {n : Nat} (h : n < 2 ^ 31) : staticCastInt n = n :=
  Int32.toInt_ofNat_of_lt h

/-- `ServerConnMeta`; the connection is named by its name. The decryptor is its
initialization vector and the state of its cipher. -/
structure ServerConnMeta (σ : Type) where
  conn : String
  iv : List UInt8
  decryptor : σ
  state : ReqState := .reqAddrType
  buf : List UInt8 := []
  dstHostname : List UInt8 := []
  dstAddrLen : UInt8 := 0
  dstPort : UInt16 := 0

namespace ServerConnMeta

variable {σ : Type}

/-- `Buffer::readInt16`, in network byte order. -/
def readInt16 : List UInt8 → UInt16 × List UInt8
  | b₀ :: b₁ :: rest => (UInt16.ofNat (256 * b₀.toNat + b₁.toNat), rest)
  | rest => (0, rest)

/-- The loop of `ParseRequest`: its result and what it leaves. The first argument bounds the
turns. -/
def parseRequestLoop : Nat → Nat → ServerConnMeta σ → Bool × ServerConnMeta σ
  | 0, _, connMeta => (false, connMeta)
  | fuel + 1, needBytes, connMeta =>
    if connMeta.buf.length > needBytes then
      match connMeta.state with
      | .reqAddrType =>
        let addrType := connMeta.buf.headD 0
        let connMeta := { connMeta with buf := connMeta.buf.tail }
        if addrType = addrTypeHost then
          parseRequestLoop fuel needBytes { connMeta with state := .reqDstAddrVarlen }
        else if addrType = addrTypeIpv4 then (false, connMeta)
        else if addrType = addrTypeIpv6 then (false, connMeta)
        else parseRequestLoop fuel needBytes connMeta
      | .reqDstAddrVarlen =>
        let addrLen := connMeta.buf.headD 0
        parseRequestLoop fuel addrLen.toNat
          { connMeta with buf := connMeta.buf.tail, dstAddrLen := addrLen, state := .reqDstAddr }
      | .reqDstAddr =>
        let addrLen := connMeta.dstAddrLen
        parseRequestLoop fuel 2
          { connMeta with
            dstHostname := connMeta.buf.take addrLen.toNat
            buf := connMeta.buf.drop addrLen.toNat
            state := .reqDstPort }
      | .reqDstPort =>
        let (port, rest) := readInt16 connMeta.buf
        (true, { connMeta with buf := rest, dstPort := port, state := .reqDone })
      | .reqDone => (false, connMeta)
    else (false, connMeta)

/-- `ParseRequest`. A turn takes a byte off the buffer or goes on to a later state. -/
def parseRequest (connMeta : ServerConnMeta σ) : Bool × ServerConnMeta σ :=
  parseRequestLoop (connMeta.buf.length + 4) 0 connMeta

end ServerConnMeta

/-- What a request asks for, and the bytes behind it. -/
structure Request where
  hostname : List UInt8
  port : UInt16
  rest : List UInt8
  deriving DecidableEq, Repr

/-- The request behind an address type of a host name: a length, the name, a port, and at least
one more byte. -/
def requestBody : List UInt8 → Option Request
  | [] => none
  | addrLen :: bytes =>
    if addrLen.toNat + 2 < bytes.length then
      let (port, rest) := ServerConnMeta.readInt16 (bytes.drop addrLen.toNat)
      some ⟨bytes.take addrLen.toNat, port, rest⟩
    else none

/-- The request at the front of some bytes. Bytes that are no known address type are skipped. -/
def requestOf : List UInt8 → Option Request
  | [] => none
  | addrType :: bytes =>
    if addrType = addrTypeHost then requestBody bytes
    else if addrType = addrTypeIpv4 then none
    else if addrType = addrTypeIpv6 then none
    else requestOf bytes

/-- Two bytes are read the same way whatever follows them. -/
theorem readInt16_append {bytes : List UInt8} (h : 2 ≤ bytes.length) (more : List UInt8) :
    ServerConnMeta.readInt16 (bytes ++ more) =
      ((ServerConnMeta.readInt16 bytes).1, (ServerConnMeta.readInt16 bytes).2 ++ more) := by
  match bytes, h with
  | _ :: _ :: _, _ => rfl

/-- More bytes do not change a request that is complete. -/
theorem requestBody_append {bytes : List UInt8} {request : Request}
    (h : requestBody bytes = some request) (more : List UInt8) :
    requestBody (bytes ++ more) = some { request with rest := request.rest ++ more } := by
  cases bytes with
  | nil => cases h
  | cons addrLen bytes =>
      simp only [requestBody] at h
      split at h
      · rename_i hlen
        have hdrop : 2 ≤ (bytes.drop addrLen.toNat).length := by
          rw [List.length_drop]
          omega
        have hall : addrLen.toNat + 2 < (bytes ++ more).length := by
          rw [List.length_append]
          omega
        rw [Option.some.injEq] at h
        simp only [List.cons_append, requestBody, if_pos hall]
        rw [List.drop_append_of_le_length (by omega), List.take_append_of_le_length (by omega),
          readInt16_append hdrop, ← h]
      · cases h

/-- So is a request, and what follows is its rest. -/
theorem requestOf_append {bytes : List UInt8} {request : Request}
    (h : requestOf bytes = some request) (more : List UInt8) :
    requestOf (bytes ++ more) = some { request with rest := request.rest ++ more } := by
  induction bytes with
  | nil => cases h
  | cons addrType bytes ih =>
      simp only [List.cons_append, requestOf] at h ⊢
      split at h
      · rename_i hhost
        rw [if_pos hhost]
        exact requestBody_append h more
      rename_i hhost
      rw [if_neg hhost]
      split at h
      · cases h
      rename_i hipv4
      rw [if_neg hipv4]
      split at h
      · cases h
      rename_i hipv6
      rw [if_neg hipv6]
      exact ih h

namespace ServerConnMeta

variable {σ : Type}

/-- The metadata after a request was taken off its buffer. -/
def withRequest (connMeta : ServerConnMeta σ) (request : Request) : ServerConnMeta σ :=
  { connMeta with
    state := .reqDone
    buf := request.rest
    dstHostname := request.hostname
    dstAddrLen := UInt8.ofNat request.hostname.length
    dstPort := request.port }

/-- The last three states of the parser. -/
theorem parseRequestLoop_body (fuel : Nat) {connMeta : ServerConnMeta σ}
    (hstate : connMeta.state = .reqDstAddrVarlen) :
    match requestBody connMeta.buf with
    | none => (parseRequestLoop (fuel + 4) 0 connMeta).1 = false
    | some request =>
      parseRequestLoop (fuel + 4) 0 connMeta = (true, connMeta.withRequest request) := by
  cases hbuf : connMeta.buf with
  | nil =>
      simp [requestBody, parseRequestLoop, hbuf]
  | cons addrLen bytes =>
      have hcast : UInt8.ofNat addrLen.toNat = addrLen := UInt8.ofNat_toNat
      by_cases hlen : addrLen.toNat + 2 < bytes.length
      · have hname : (bytes.take addrLen.toNat).length = addrLen.toNat := by
          rw [List.length_take]
          omega
        have hbefore : addrLen.toNat < bytes.length := by omega
        have hbehind : 2 < bytes.length - addrLen.toNat := by omega
        simp [requestBody, parseRequestLoop, hbuf, hstate, hlen, withRequest, hname, hcast,
          hbefore, hbehind]
      · by_cases hname : addrLen.toNat < bytes.length
        · have hbehind : ¬ 2 < bytes.length - addrLen.toNat := by omega
          simp [requestBody, parseRequestLoop, hbuf, hstate, hlen, hname, hbehind]
        · simp [requestBody, parseRequestLoop, hbuf, hstate, hlen, hname]

/-- `ParseRequest` finds the request at the front of the buffer of new metadata, or none. -/
theorem parseRequest_spec {connMeta : ServerConnMeta σ} (hstate : connMeta.state = .reqAddrType) :
    match requestOf connMeta.buf with
    | none => connMeta.parseRequest.1 = false
    | some request => connMeta.parseRequest = (true, connMeta.withRequest request) := by
  unfold parseRequest
  generalize hfuel : connMeta.buf.length = n
  induction n generalizing connMeta with
  | zero =>
      have hnil := List.eq_nil_of_length_eq_zero hfuel
      simp [hnil, requestOf, parseRequestLoop]
  | succ n ih =>
      obtain ⟨addrType, bytes, hbuf⟩ := List.exists_cons_of_length_eq_add_one hfuel
      have hn : bytes.length = n := by simpa [hbuf] using hfuel
      have hturn : parseRequestLoop (n + 1 + 4) 0 connMeta =
          if addrType = addrTypeHost then
            parseRequestLoop (n + 4) 0 { connMeta with buf := bytes, state := .reqDstAddrVarlen }
          else if addrType = addrTypeIpv4 then (false, { connMeta with buf := bytes })
          else if addrType = addrTypeIpv6 then (false, { connMeta with buf := bytes })
          else parseRequestLoop (n + 4) 0 { connMeta with buf := bytes } := by
        rw [Nat.add_right_comm, parseRequestLoop]
        simp [hbuf, hstate]
      rw [hturn, hbuf, requestOf]
      by_cases hhost : addrType = addrTypeHost
      · simp only [hhost, ite_true]
        exact @parseRequestLoop_body σ n
          { connMeta with buf := bytes, state := .reqDstAddrVarlen } rfl
      by_cases hipv4 : addrType = addrTypeIpv4
      · simp only [if_neg hhost, if_pos hipv4]
      by_cases hipv6 : addrType = addrTypeIpv6
      · simp only [if_neg hhost, if_neg hipv4, if_pos hipv6]
      simp only [hhost, hipv4, hipv6, ite_false]
      exact @ih { connMeta with buf := bytes } hstate hn

end ServerConnMeta

end CodeBlocks.Relay
