import OpLog.Source.Messages

/-!
# The channel to the worker

The bounded `mpsc` channel behind every handle, as far as its senders and its receiver can
tell: a queue, the places promised to senders that wait in `send`, and whether the receiver
is gone, and with it what was queued.
-/
namespace OpLog.Source

def CHANNEL_CAPACITY : Nat := 1024

structure Channel where
  queue : List OpLogMessage
  reserved : Nat
  closed : Bool

namespace Channel

def empty : Channel := ⟨[], 0, false⟩

variable (capacity : Nat)

def room (c : Channel) : Bool := !c.closed && c.queue.length + c.reserved < capacity

/-- `try_send`; `none` is its error, be it `Full` or `Closed`. -/
def trySend (c : Channel) (msg : OpLogMessage) : Option Channel :=
  if c.room capacity then some { c with queue := c.queue ++ [msg] } else none

/-- The place a waiting `send` is promised. -/
def reserve (c : Channel) : Option Channel :=
  if c.room capacity then some { c with reserved := c.reserved + 1 } else none

/-- A promised place is used; once the receiver is gone the message is lost. -/
def send (c : Channel) (msg : OpLogMessage) : Channel :=
  { c with queue := if c.closed then c.queue else c.queue ++ [msg], reserved := c.reserved - 1 }

/-- A promised place is given back. -/
def release (c : Channel) : Channel := { c with reserved := c.reserved - 1 }

def recv (c : Channel) : Option (OpLogMessage × Channel) :=
  match c.queue with
  | [] => none
  | msg :: queue => some (msg, { c with queue })

/-- The receiver is dropped. -/
def close (c : Channel) : Channel := { c with queue := [], closed := true }

end Channel
end OpLog.Source
