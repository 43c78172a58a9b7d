import Mathlib.Algebra.GroupWithZero.Nat
import CodeBlocks.Relay.Request

/-!
# The grammar of a request

A request is the address type of a host name, a length, that many bytes of name,
a port and whatever follows. `ParseRequest` stays inside its buffer on every
input. It misses a request that nothing follows, and it takes one that is
preceded by bytes of no known address type.
-/

namespace CodeBlocks.Relay

/-- Some bytes are a request, with the bytes behind it. -/
def IsRequest (bytes : List UInt8) (request : Request) : Prop :=
  ∃ addrLen high low : UInt8,
    bytes = addrTypeHost :: addrLen :: (request.hostname ++ high :: low :: request.rest) ∧
      request.hostname.length = addrLen.toNat ∧
      request.port = UInt16.ofNat (256 * high.toNat + low.toNat)

/-- A byte that is no known address type. -/
def UnknownType (addrType : UInt8) : Prop :=
  addrType ≠ addrTypeHost ∧ addrType ≠ addrTypeIpv4 ∧ addrType ≠ addrTypeIpv6

/-- Bytes that are a request have no other reading. -/
theorem IsRequest.unique {bytes : List UInt8} {request other : Request}
    (h : IsRequest bytes request) (hother : IsRequest bytes other) : request = other := by
  obtain ⟨addrLen, high, low, rfl, hlen, hport⟩ := h
  obtain ⟨addrLen', high', low', heq, hlen', hport'⟩ := hother
  simp only [List.cons.injEq, true_and] at heq
  obtain ⟨rfl, hrest⟩ := heq
  obtain ⟨hname, htail⟩ := List.append_inj hrest (hlen.trans hlen'.symm)
  simp only [List.cons.injEq] at htail
  obtain ⟨rfl, rfl, hbehind⟩ := htail
  obtain ⟨hostname, port, rest⟩ := request
  obtain ⟨hostname', port', rest'⟩ := other
  simp_all

/-- A list with the two bytes of a port at its head. -/
theorem exists_port {bytes : List UInt8} (h : 1 < bytes.length) :
    ∃ high low rest, bytes = high :: low :: rest := by
  obtain ⟨high, tail, rfl⟩ := List.exists_cons_of_length_pos (Nat.zero_lt_of_lt h)
  rw [List.length_cons] at h
  obtain ⟨low, rest, rfl⟩ := List.exists_cons_of_length_pos (Nat.lt_of_succ_lt_succ h)
  exact ⟨high, low, rest, rfl⟩

/-- The parser wants a byte behind the port. -/
theorem requestBody_eq_some_iff {bytes : List UInt8} {request : Request} :
    requestBody bytes = some request ↔
      IsRequest (addrTypeHost :: bytes) request ∧ request.rest ≠ [] := by
  constructor
  · intro h
    cases bytes with
    | nil => cases h
    | cons addrLen bytes =>
        rw [requestBody] at h
        split at h
        · rename_i hlen
          have hdrop : 2 < (bytes.drop addrLen.toNat).length := by
            rw [List.length_drop]
            omega
          have hname : (bytes.take addrLen.toNat).length = addrLen.toNat := by
            rw [List.length_take]
            omega
          have hsplit := List.take_append_drop addrLen.toNat bytes
          obtain ⟨high, low, rest, hcase⟩ := exists_port (Nat.lt_of_succ_lt hdrop)
          rw [hcase] at h hsplit hdrop
          simp only [ServerConnMeta.readInt16, Option.some.injEq] at h
          rw [← h]
          refine ⟨⟨addrLen, high, low, by rw [hsplit], hname, rfl⟩, ?_⟩
          apply List.ne_nil_of_length_pos
          simpa using hdrop
        · cases h
  · rintro ⟨⟨addrLen, high, low, hbytes, hlen, hport⟩, hrest⟩
    simp only [List.cons.injEq, true_and] at hbytes
    have hpos := List.length_pos_iff.mpr hrest
    have hall : addrLen.toNat + 2 < (request.hostname ++ high :: low :: request.rest).length := by
      rw [List.length_append, List.length_cons, List.length_cons]
      omega
    rw [hbytes, requestBody, if_pos hall, ← hlen, List.drop_left, List.take_left]
    simp only [ServerConnMeta.readInt16, ← hport]

/-- A request begins with the address type of a host name. -/
theorem IsRequest.head_eq {addrType : UInt8} {bytes : List UInt8} {request : Request}
    (h : IsRequest (addrType :: bytes) request) : addrType = addrTypeHost := by
  obtain ⟨addrLen, high, low, hbytes, -⟩ := h
  exact (List.cons.inj hbytes).1

/-- There is no empty request. -/
theorem not_isRequest_nil (request : Request) : ¬ IsRequest [] request := by
  rintro ⟨addrLen, high, low, hbytes, -⟩
  cases hbytes

/-- A request that something follows, behind bytes of no known address type. -/
def Found (bytes : List UInt8) (request : Request) : Prop :=
  ∃ skipped tail, bytes = skipped ++ tail ∧ (∀ addrType ∈ skipped, UnknownType addrType) ∧
    IsRequest tail request ∧ request.rest ≠ []

/-- A request is found at the first byte, or behind an address type that is not known. -/
theorem found_cons_iff {addrType : UInt8} {bytes : List UInt8} {request : Request} :
    Found (addrType :: bytes) request ↔
      IsRequest (addrType :: bytes) request ∧ request.rest ≠ [] ∨
        UnknownType addrType ∧ Found bytes request := by
  constructor
  · rintro ⟨skipped, tail, hsplit, hunknown, hrequest⟩
    cases skipped with
    | nil => exact Or.inl (hsplit ▸ hrequest)
    | cons first skipped =>
        rw [List.cons_append, List.cons.injEq] at hsplit
        obtain ⟨rfl, hsplit⟩ := hsplit
        obtain ⟨hfirst, hrest⟩ := List.forall_mem_cons.mp hunknown
        exact Or.inr ⟨hfirst, skipped, tail, hsplit, hrest, hrequest⟩
  · rintro (hrequest | ⟨hfirst, skipped, tail, hsplit, hrest, hrequest⟩)
    · exact ⟨[], addrType :: bytes, rfl, by simp, hrequest⟩
    · refine ⟨addrType :: skipped, tail, by rw [hsplit]; rfl, ?_, hrequest⟩
      exact List.forall_mem_cons.mpr ⟨hfirst, hrest⟩

/-- What the parser takes for a request. -/
theorem requestOf_eq_some_iff {bytes : List UInt8} {request : Request} :
    requestOf bytes = some request ↔ Found bytes request := by
  induction bytes with
  | nil =>
      constructor
      · intro h
        cases h
      · rintro ⟨skipped, tail, hsplit, -, hrequest, -⟩
        rw [(List.append_eq_nil_iff.mp hsplit.symm).2] at hrequest
        exact absurd hrequest (not_isRequest_nil request)
  | cons addrType bytes ih =>
      rw [found_cons_iff, requestOf]
      by_cases hhost : addrType = addrTypeHost
      · rw [if_pos hhost, requestBody_eq_some_iff, hhost]
        exact (or_iff_left fun h => h.1.1 rfl).symm
      rw [if_neg hhost]
      have hnone : ¬ (IsRequest (addrType :: bytes) request ∧ request.rest ≠ []) :=
        fun h => hhost h.1.head_eq
      rw [or_iff_right hnone]
      by_cases hipv4 : addrType = addrTypeIpv4
      · rw [if_pos hipv4]
        exact iff_of_false (by simp) fun h => h.1.2.1 hipv4
      rw [if_neg hipv4]
      by_cases hipv6 : addrType = addrTypeIpv6
      · rw [if_pos hipv6]
        exact iff_of_false (by simp) fun h => h.1.2.2 hipv6
      rw [if_neg hipv6, ih]
      exact (and_iff_right ⟨hhost, hipv4, hipv6⟩).symm

namespace ServerConnMeta

variable {σ : Type}

/-- The reads of `ParseRequest`, each with the number of bytes that the buffer holds then. -/
def parseRequestReads : Nat → Nat → ServerConnMeta σ → List (Nat × Nat)
  | 0, _, _ => []
  | fuel + 1, needBytes, connMeta =>
    if connMeta.buf.length > needBytes then
      match connMeta.state with
      | .reqAddrType =>
        let addrType := connMeta.buf.headD 0
        let rest := { connMeta with buf := connMeta.buf.tail }
        (1, connMeta.buf.length) ::
          if addrType = addrTypeHost then
            parseRequestReads fuel needBytes { rest with state := .reqDstAddrVarlen }
          else if addrType = addrTypeIpv4 then []
          else if addrType = addrTypeIpv6 then []
          else parseRequestReads fuel needBytes rest
      | .reqDstAddrVarlen =>
        let addrLen := connMeta.buf.headD 0
        (1, connMeta.buf.length) :: parseRequestReads fuel addrLen.toNat
          { connMeta with buf := connMeta.buf.tail, dstAddrLen := addrLen, state := .reqDstAddr }
      | .reqDstAddr =>
        (connMeta.dstAddrLen.toNat, connMeta.buf.length) :: parseRequestReads fuel 2
          { connMeta with
            dstHostname := connMeta.buf.take connMeta.dstAddrLen.toNat
            buf := connMeta.buf.drop connMeta.dstAddrLen.toNat
            state := .reqDstPort }
      | .reqDstPort => [(2, connMeta.buf.length)]
      | .reqDone => []
    else []

/-- The bytes that the loop asks for are those of the state it is in. -/
def Asks (needBytes : Nat) (connMeta : ServerConnMeta σ) : Prop :=
  (connMeta.state = .reqDstAddr → needBytes = connMeta.dstAddrLen.toNat) ∧
    (connMeta.state = .reqDstPort → needBytes = 2)

/-- No read takes more bytes than the buffer holds. -/
theorem parseRequestReads_le (fuel needBytes : Nat) {connMeta : ServerConnMeta σ}
    (hasks : Asks needBytes connMeta) :
    ∀ read ∈ parseRequestReads fuel needBytes connMeta, read.1 ≤ read.2 := by
  induction fuel generalizing needBytes connMeta with
  | zero => simp [parseRequestReads]
  | succ fuel ih =>
      unfold parseRequestReads
      split
      · rename_i hmore
        split
        · rename_i hstate
          have hfirst : (1, connMeta.buf.length).1 ≤ (1, connMeta.buf.length).2 := by
            dsimp only
            omega
          refine List.forall_mem_cons.mpr ⟨hfirst, ?_⟩
          split
          · exact ih _ (by simp [Asks])
          split
          · simp
          split
          · simp
          · exact ih _ (by simp [Asks, hstate])
        · rename_i hstate
          refine List.forall_mem_cons.mpr ⟨by dsimp only; omega, ih _ ?_⟩
          simp [Asks]
        · rename_i hstate
          have hneed := hasks.1 hstate
          refine List.forall_mem_cons.mpr ⟨by dsimp only; omega, ih _ ?_⟩
          simp [Asks]
        · rename_i hstate
          have hneed := hasks.2 hstate
          simp only [List.mem_singleton, forall_eq]
          omega
        · simp
      · simp

/-- The bytes read and those that the parser leaves are all there were. -/
theorem sum_parseRequestReads (fuel needBytes : Nat) {connMeta : ServerConnMeta σ}
    (hasks : Asks needBytes connMeta) :
    ((parseRequestReads fuel needBytes connMeta).map Prod.fst).sum +
      (parseRequestLoop fuel needBytes connMeta).2.buf.length = connMeta.buf.length := by
  induction fuel generalizing needBytes connMeta with
  | zero => simp [parseRequestReads, parseRequestLoop]
  | succ fuel ih =>
      by_cases hmore : needBytes < connMeta.buf.length
      · have htail : connMeta.buf.tail.length + 1 = connMeta.buf.length := by
          rw [List.length_tail]
          omega
        cases hstate : connMeta.state with
        | reqAddrType =>
            simp only [parseRequestReads, parseRequestLoop, if_pos hmore, hstate]
            rw [List.map_cons, List.sum_cons, ← htail]
            split
            · rw [add_assoc, ih _ (by simp [Asks]), add_comm]
            split
            · simp [add_comm]
            split
            · simp [add_comm]
            · rw [add_assoc, ih _ (by simp [Asks]), add_comm]
        | reqDstAddrVarlen =>
            simp only [parseRequestReads, parseRequestLoop, if_pos hmore, hstate]
            rw [List.map_cons, List.sum_cons, add_assoc, ih _ (by simp [Asks]), ← htail, add_comm]
        | reqDstAddr =>
            have hneed := hasks.1 hstate
            simp only [parseRequestReads, parseRequestLoop, if_pos hmore, hstate]
            rw [List.map_cons, List.sum_cons, add_assoc, ih _ (by simp [Asks]), List.length_drop]
            omega
        | reqDstPort =>
            have hneed := hasks.2 hstate
            simp only [parseRequestReads, parseRequestLoop, if_pos hmore, hstate]
            obtain ⟨high, low, rest, hbuf⟩ := exists_port (Nat.lt_of_succ_lt (hneed ▸ hmore))
            simp only [hbuf, readInt16, List.map_cons, List.map_nil, List.sum_cons, List.sum_nil,
              List.length_cons]
            omega
        | reqDone => simp [parseRequestReads, parseRequestLoop, hstate]
      · simp [parseRequestReads, parseRequestLoop, hmore]

/-- `ParseRequest` takes what the grammar says, and every read of it stays inside the buffer: what
is read and what is left are all the bytes there were. -/
structure FollowsGrammar (connMeta : ServerConnMeta σ) : Prop where
  accepts_iff : connMeta.parseRequest.1 = true ↔ ∃ request, IsRequest connMeta.buf request
  result_eq : ∀ request, IsRequest connMeta.buf request →
    connMeta.parseRequest.2.dstHostname = request.hostname ∧
      connMeta.parseRequest.2.dstPort = request.port ∧
      connMeta.parseRequest.2.buf = request.rest
  inside : ∀ read ∈ parseRequestReads (connMeta.buf.length + 4) 0 connMeta, read.1 ≤ read.2
  accounted : ((parseRequestReads (connMeta.buf.length + 4) 0 connMeta).map Prod.fst).sum +
    connMeta.parseRequest.2.buf.length = connMeta.buf.length

/-- The parser answers true exactly where a request is found. -/
theorem parseRequest_true_iff {connMeta : ServerConnMeta σ}
    (hstate : connMeta.state = .reqAddrType) :
    connMeta.parseRequest.1 = true ↔ ∃ request, Found connMeta.buf request := by
  have hspec := parseRequest_spec hstate
  cases hrequest : requestOf connMeta.buf with
  | none =>
      rw [hrequest] at hspec
      refine iff_of_false (by simp [hspec]) ?_
      rintro ⟨request, hfound⟩
      rw [← requestOf_eq_some_iff, hrequest] at hfound
      cases hfound
  | some request =>
      rw [hrequest] at hspec
      exact iff_of_true (by rw [hspec]) ⟨request, requestOf_eq_some_iff.mp hrequest⟩

/-- And then it has read that request. -/
theorem parseRequest_of_found {connMeta : ServerConnMeta σ}
    (hstate : connMeta.state = .reqAddrType) {request : Request}
    (h : Found connMeta.buf request) :
    connMeta.parseRequest = (true, connMeta.withRequest request) := by
  have hspec := parseRequest_spec hstate
  rwa [requestOf_eq_some_iff.mpr h] at hspec

/-- New metadata with some bytes in its buffer. -/
def fresh (conn : String) (iv : List UInt8) (decryptor : σ) (bytes : List UInt8) :
    ServerConnMeta σ := { conn, iv, decryptor, buf := bytes }

end ServerConnMeta

/-- A request that nothing follows. -/
def EndsAtPort (bytes : List UInt8) : Prop :=
  ∃ request, IsRequest bytes request ∧ request.rest = []

/-- A request that something follows, behind at least one byte of no known address type. -/
def Misplaced (bytes : List UInt8) : Prop :=
  ∃ first rest request, bytes = first :: rest ∧ UnknownType first ∧ Found rest request

/-- `ParseRequest` follows the grammar on the bytes of a new connection unless they are a request
that nothing follows, or a request with something behind it stands after bytes of no known address
type. -/
theorem followsGrammar_iff {σ : Type} (conn : String) (iv : List UInt8) (decryptor : σ)
    (bytes : List UInt8) :
    (ServerConnMeta.fresh conn iv decryptor bytes).FollowsGrammar ↔
      ¬ EndsAtPort bytes ∧ ¬ Misplaced bytes := by
  have htrue := @ServerConnMeta.parseRequest_true_iff σ
    (ServerConnMeta.fresh conn iv decryptor bytes) rfl
  have hbuf : (ServerConnMeta.fresh conn iv decryptor bytes).buf = bytes := rfl
  rw [hbuf] at htrue
  -- where nothing is misplaced, the parser finds a request at the very front
  have hfront : ¬ Misplaced bytes → ∀ {request}, Found bytes request →
      IsRequest bytes request ∧ request.rest ≠ [] := by
    intro hplaced request hfound
    cases bytes with
    | nil =>
        rw [← requestOf_eq_some_iff] at hfound
        cases hfound
    | cons first rest =>
        exact (found_cons_iff.mp hfound).resolve_right fun ⟨hunknown, hrest⟩ =>
          hplaced ⟨first, rest, request, rfl, hunknown, hrest⟩
  have hfound : ∀ {request}, IsRequest bytes request → request.rest ≠ [] →
      Found bytes request :=
    fun hrequest hrest => ⟨[], bytes, rfl, by simp, hrequest, hrest⟩
  constructor
  · intro h
    have haccepts := h.accepts_iff
    rw [hbuf] at haccepts
    constructor
    · rintro ⟨request, hrequest, hrest⟩
      obtain ⟨other, hother⟩ := htrue.mp (haccepts.mpr ⟨request, hrequest⟩)
      have hplaced : ¬ Misplaced bytes := by
        rintro ⟨first, tail, _, rfl, hunknown, -⟩
        exact hunknown.1 hrequest.head_eq
      obtain ⟨hsame, hmore⟩ := hfront hplaced hother
      rw [hrequest.unique hsame] at hrest
      exact hmore hrest
    · rintro ⟨first, rest, request, rfl, hunknown, hrest⟩
      obtain ⟨other, hother⟩ := haccepts.mp
        (htrue.mpr ⟨request, found_cons_iff.mpr (Or.inr ⟨hunknown, hrest⟩)⟩)
      exact hunknown.1 hother.head_eq
  · rintro ⟨hends, hplaced⟩
    have hmore : ∀ {request}, IsRequest bytes request → Found bytes request :=
      fun hrequest => hfound hrequest fun hrest => hends ⟨_, hrequest, hrest⟩
    have hasks : ServerConnMeta.Asks 0 (ServerConnMeta.fresh conn iv decryptor bytes) := by
      simp [ServerConnMeta.Asks, ServerConnMeta.fresh]
    refine ⟨?_, ?_, ServerConnMeta.parseRequestReads_le _ _ hasks,
      ServerConnMeta.sum_parseRequestReads _ _ hasks⟩
    · rw [htrue, hbuf]
      exact ⟨fun ⟨request, h⟩ => ⟨request, (hfront hplaced h).1⟩,
        fun ⟨request, h⟩ => ⟨request, hmore h⟩⟩
    · intro request hrequest
      rw [ServerConnMeta.parseRequest_of_found rfl (hmore hrequest)]
      exact ⟨rfl, rfl, rfl⟩

/-- A request for port 80 of `a` that nothing follows is turned down, and one behind a zero byte is
taken. -/
theorem not_followsGrammar_exact :
    ¬ (ServerConnMeta.fresh "" [] () [3, 1, 97, 0, 80]).FollowsGrammar ∧
      ¬ (ServerConnMeta.fresh "" [] () [0, 3, 1, 97, 0, 80, 5]).FollowsGrammar := by
  constructor
  · intro h
    have hrequest : IsRequest [3, 1, 97, 0, 80] ⟨[97], 80, []⟩ :=
      ⟨1, 0, 80, rfl, rfl, rfl⟩
    have htrue := h.accepts_iff.mpr ⟨_, hrequest⟩
    revert htrue
    decide
  · intro h
    obtain ⟨request, hrequest⟩ := h.accepts_iff.mp (by decide)
    exact absurd hrequest.head_eq (by decide)

end CodeBlocks.Relay
