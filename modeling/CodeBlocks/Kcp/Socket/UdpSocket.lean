import CodeBlocks.Core.Run

/-!
# The socket wrapper

`UDPSocket` keeps the addresses of its descriptor once it has asked the kernel
for them. `Close` gives up the descriptor and not the addresses, so a descriptor
opened later is answered for with what is left of the one before.
-/

namespace CodeBlocks.Kcp

/-- An open descriptor, with the answers of `getsockname` and `getpeername` for it; a descriptor
that was bound and not connected has no peer. -/
structure Descriptor (Address : Type*) where
  localName : Address
  peerName : Option Address
  deriving DecidableEq, Repr

/-- `UDPSocket`: the descriptor, or `kInvalidSocket`, and the addresses kept. -/
structure UDPSocket (Address : Type*) where
  sockfd : Option (Descriptor Address) := none
  localAddress : Option Address := none
  peerAddress : Option Address := none
  deriving DecidableEq, Repr

/-- A call. The kernel opens a descriptor for `Bind` and `Connect` and gives it a local name. -/
inductive SocketCall (Address : Type*) where
  | connect (address localName : Address)
  | bind (address localName : Address)
  | close
  | getLocalAddress
  | getPeerAddress
  deriving DecidableEq, Repr

/-- How a call ends. -/
inductive SocketResult (Address : Type*) where
  | assertFailed
  | done
  | address (address : Address)
  | error
  deriving DecidableEq, Repr

namespace UDPSocket

variable {Address : Type*}

/-- `IsValidSocket`. -/
def isValidSocket (socket : UDPSocket Address) : Bool := socket.sockfd.isSome

/-- `Connect`, with every kernel call succeeding. -/
def connect (socket : UDPSocket Address) (address localName : Address) :
    UDPSocket Address × SocketResult Address :=
  if socket.isValidSocket then (socket, .assertFailed)
  else if socket.peerAddress.isSome then (socket, .assertFailed)
  else ({ socket with sockfd := some { localName, peerName := some address } }, .done)

/-- `Bind`, with every kernel call succeeding. -/
def bind (socket : UDPSocket Address) (localName : Address) :
    UDPSocket Address × SocketResult Address :=
  if socket.isValidSocket then (socket, .assertFailed)
  else ({ socket with sockfd := some { localName, peerName := none } }, .done)

/-- `Close`. -/
def close (socket : UDPSocket Address) : UDPSocket Address :=
  if !socket.isValidSocket then socket else { socket with sockfd := none }

/-- `GetLocalAddress`. -/
def getLocalAddress (socket : UDPSocket Address) : UDPSocket Address × SocketResult Address :=
  match socket.sockfd with
  | none => (socket, .error)
  | some sockfd =>
    let localAddress := socket.localAddress.getD sockfd.localName
    ({ socket with localAddress := some localAddress }, .address localAddress)

/-- `GetPeerAddress`; `getpeername` fails on a descriptor that is not connected. -/
def getPeerAddress (socket : UDPSocket Address) : UDPSocket Address × SocketResult Address :=
  match socket.sockfd with
  | none => (socket, .error)
  | some sockfd =>
    match socket.peerAddress.or sockfd.peerName with
    | none => (socket, .error)
    | some peerAddress =>
      ({ socket with peerAddress := some peerAddress }, .address peerAddress)

end UDPSocket

namespace SocketCall

variable {Address : Type*}

/-- The socket after a call, and how the call ends. -/
def call (socket : UDPSocket Address) :
    SocketCall Address → UDPSocket Address × SocketResult Address
  | .connect address localName => socket.connect address localName
  | .bind _ localName => socket.bind localName
  | .close => (socket.close, .done)
  | .getLocalAddress => socket.getLocalAddress
  | .getPeerAddress => socket.getPeerAddress

def run (socket : UDPSocket Address) (c : SocketCall Address) : UDPSocket Address :=
  (c.call socket).1

/-- `Connect` and `Bind` are called where no descriptor is open. -/
def Allowed (socket : UDPSocket Address) : SocketCall Address → Prop
  | .connect .. | .bind .. => socket.isValidSocket = false
  | _ => True

/-- `Connect` and `Bind` find no address that is kept from before. -/
def Uncached (socket : UDPSocket Address) : SocketCall Address → Prop
  | .connect .. | .bind .. => socket.localAddress = none ∧ socket.peerAddress = none
  | _ => True

/-- What the kernel answers for the open descriptor, to the query that a call makes. -/
def answer (socket : UDPSocket Address) : SocketCall Address → Option Address
  | .getLocalAddress => socket.sockfd.map Descriptor.localName
  | .getPeerAddress => socket.sockfd.bind Descriptor.peerName
  | _ => none

/-- No assert fails, and an address that is returned is that of the open descriptor. -/
def Current (socket : UDPSocket Address) (c : SocketCall Address) : Prop :=
  (c.call socket).2 ≠ .assertFailed ∧
    ∀ address, (c.call socket).2 = .address address → c.answer socket = some address

end SocketCall

/-- The addresses kept are those of the open descriptor. -/
structure UDPSocket.Coherent {Address : Type*} (socket : UDPSocket Address) : Prop where
  localName : ∀ sockfd address, socket.sockfd = some sockfd →
    socket.localAddress = some address → address = sockfd.localName
  peerName : ∀ sockfd address, socket.sockfd = some sockfd →
    socket.peerAddress = some address → some address = sockfd.peerName

namespace UDPSocket.Coherent

variable {Address : Type*} {socket : UDPSocket Address}

/-- Without a descriptor, whatever is kept. -/
theorem of_closed (h : socket.sockfd = none) : socket.Coherent where
  localName := fun _ _ hfd => by rw [h] at hfd; cases hfd
  peerName := fun _ _ hfd => by rw [h] at hfd; cases hfd

/-- A descriptor that is opened where no address is kept. -/
theorem opened (hlocal : socket.localAddress = none) (hpeer : socket.peerAddress = none)
    (sockfd : Option (Descriptor Address)) : Coherent { socket with sockfd := sockfd } where
  localName := by
    intro fd address _ hkept
    rw [hlocal] at hkept
    cases hkept
  peerName := by
    intro fd address _ hkept
    rw [hpeer] at hkept
    cases hkept

/-- One call: what it returns is current, and the addresses kept stay those of the descriptor. -/
theorem run (h : socket.Coherent) {c : SocketCall Address} (hopen : c.Allowed socket)
    (hfresh : c.Uncached socket) : (c.run socket).Coherent ∧ c.Current socket := by
  obtain ⟨sockfd, localAddress, peerAddress⟩ := socket
  cases c with
  | connect address localName =>
      obtain ⟨rfl, rfl⟩ := hfresh
      cases sockfd with
      | some fd => cases hopen
      | none => exact ⟨opened rfl rfl _, by simp [SocketCall.Current, SocketCall.call,
          UDPSocket.connect, isValidSocket]⟩
  | bind address localName =>
      obtain ⟨rfl, rfl⟩ := hfresh
      cases sockfd with
      | some fd => cases hopen
      | none => exact ⟨opened rfl rfl _, by simp [SocketCall.Current, SocketCall.call,
          UDPSocket.bind, isValidSocket]⟩
  | close =>
      refine ⟨?_, by simp [SocketCall.Current, SocketCall.call]⟩
      cases sockfd with
      | none => exact h
      | some fd => exact of_closed rfl
  | getLocalAddress =>
      cases sockfd with
      | none => exact ⟨h, by simp [SocketCall.Current, SocketCall.call, UDPSocket.getLocalAddress]⟩
      | some fd =>
          have hkept : localAddress.getD fd.localName = fd.localName := by
            cases localAddress with
            | none => rfl
            | some address => exact h.localName fd address rfl rfl
          refine ⟨⟨?_, ?_⟩, ?_⟩
          · rintro fd' address ⟨⟩ ⟨⟩
            exact hkept
          · exact h.peerName
          · simp [SocketCall.Current, SocketCall.call, UDPSocket.getLocalAddress,
              SocketCall.answer, hkept]
  | getPeerAddress =>
      cases sockfd with
      | none => exact ⟨h, by simp [SocketCall.Current, SocketCall.call, UDPSocket.getPeerAddress]⟩
      | some fd =>
          have hkept : peerAddress.or fd.peerName = fd.peerName := by
            cases peerAddress with
            | none => rfl
            | some address => exact h.peerName fd address rfl rfl
          cases hpeer : fd.peerName with
          | none =>
              rw [hpeer] at hkept
              refine ⟨?_, ?_⟩
              · simpa only [SocketCall.run, SocketCall.call, UDPSocket.getPeerAddress, hpeer, hkept]
                  using h
              · simp [SocketCall.Current, SocketCall.call, UDPSocket.getPeerAddress, hpeer, hkept]
          | some peer =>
              rw [hpeer] at hkept
              simp only [SocketCall.run, SocketCall.Current, SocketCall.call,
                UDPSocket.getPeerAddress, hpeer, hkept]
              refine ⟨⟨h.localName, ?_⟩, by simp [SocketCall.answer, hpeer]⟩
              rintro fd' address ⟨⟩ ⟨⟩
              exact hpeer.symm

end UDPSocket.Coherent

variable {Address : Type*}

/-- In every run that opens descriptors only where no address is kept, no assert fails and every
address that is returned is that of the open descriptor. -/
theorem addresses_current {calls : List (SocketCall Address)}
    (h : Along SocketCall.run (fun socket c => c.Allowed socket ∧ c.Uncached socket) {} calls) :
    Along SocketCall.run (fun socket c => c.Current socket) {} calls := by
  have hinit : UDPSocket.Coherent ({} : UDPSocket Address) := UDPSocket.Coherent.of_closed rfl
  generalize ({} : UDPSocket Address) = socket at h hinit
  induction calls generalizing socket with
  | nil => trivial
  | cons c calls ih =>
      obtain ⟨⟨hopen, hfresh⟩, hrest⟩ := h
      obtain ⟨hnext, hcurrent⟩ := hinit.run hopen hfresh
      exact ⟨hcurrent, ih _ hrest hnext⟩

/-- A connected socket that is asked for both of its addresses. -/
theorem addresses_current_connected :
    Along SocketCall.run (fun socket c => c.Current socket) {}
      [SocketCall.connect 7 1, .getLocalAddress, .getPeerAddress, .close] :=
  addresses_current (by
    simp [Along, SocketCall.Allowed, SocketCall.Uncached, UDPSocket.isValidSocket])

/-- A socket bound a second time answers with its first name, and one connected a second time
fails an assert. -/
theorem not_addresses_current_reopened :
    (Along SocketCall.run (fun socket c => c.Allowed socket) {}
        [SocketCall.bind 1 1, .getLocalAddress, .close, .bind 2 2, .getLocalAddress] ∧
      ¬ Along SocketCall.run (fun socket c => c.Current socket) {}
        [SocketCall.bind 1 1, .getLocalAddress, .close, .bind 2 2, .getLocalAddress]) ∧
    Along SocketCall.run (fun socket c => c.Allowed socket) {}
        [SocketCall.connect 7 1, .getPeerAddress, .close, .connect 7 1] ∧
      ¬ Along SocketCall.run (fun socket c => c.Current socket) {}
        [SocketCall.connect 7 1, .getPeerAddress, .close, .connect 7 1] := by
  refine ⟨⟨⟨rfl, trivial, trivial, rfl, trivial, trivial⟩, ?_⟩,
    ⟨rfl, trivial, trivial, rfl, trivial⟩, ?_⟩
  · rintro ⟨-, -, -, -, ⟨-, hlast⟩, -⟩
    cases hlast 1 rfl
  · rintro ⟨-, -, -, ⟨hassert, -⟩, -⟩
    exact hassert rfl

end CodeBlocks.Kcp
