import StreamParse.Reactor.Basic

/-!
# Moves

A buffer or a session that is moved goes on where it stopped, under another index.  What it leaves
behind is empty: a buffer without bytes and storage but with its limit, and for a source that the
session owned a layer that reads as closed.  A read that a moved source holds moves with it.
-/

namespace StreamParse

namespace Reactor

variable {ν ε : Type}

/-- Moves a buffer to the end of the list. -/
def moveBuffer (reactor : Reactor ν ε) (index : Nat) (buffer : Buffer) : Reactor ν ε :=
  { reactor with buffers := reactor.buffers.set index buffer.emptied ++ [buffer] }

/-- Moves a buffer over another one.  Moved to its own place it stays as it is. -/
def assignBuffer (reactor : Reactor ν ε) (source : Nat) (buffer : Buffer) (target : Nat) :
    Reactor ν ε :=
  if source = target then reactor
  else (reactor.setBuffer target buffer).setBuffer source buffer.emptied

/-- What remains of a seat that was moved: the settings, and a layer only if it was borrowed. -/
def vacated (seat : Seat) : Seat :=
  { seat with
    layer := match seat.layer with
      | .borrowed source => .borrowed source
      | _ => .released
    buffer := seat.buffer.emptied }

/-- Names the new owner wherever the old one is named.  What waited for the new owner's former
source waits for nothing. -/
def rehold (reactor : Reactor ν ε) (old new : Nat) : Reactor ν ε :=
  { reactor with
    held := (reactor.held.filter fun entry => entry.1 != .owned new).map fun entry =>
      if entry.1 = .owned old then (.owned new, entry.2) else entry }

/-- Moves a seat to the end of the list. -/
def moveSeat (reactor : Reactor ν ε) (index : Nat) : Reactor ν ε :=
  let seat := reactor.seatAt index
  let reactor := reactor.rehold index reactor.seats.length
  { reactor with seats := reactor.seats.set index (vacated seat) ++ [seat] }

/-- Moves a seat over another one.  Moved to its own place it stays as it is. -/
def assignSeat (reactor : Reactor ν ε) (source target : Nat) : Reactor ν ε :=
  if source = target then reactor
  else
    let seat := reactor.seatAt source
    ((reactor.rehold source target).setSeat target seat).setSeat source (vacated seat)

end Reactor

end StreamParse
