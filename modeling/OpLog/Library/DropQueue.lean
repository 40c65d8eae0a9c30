/-!
# A queue whose drops are accounted for

The purpose of a bounded delivery queue, stated without its byte counts, timers or
disk: entries come in at the back, the oldest may be dropped at the front, and a
delivery takes the first entries together with the number dropped since the last
delivery. The history keeps what was dropped and what was delivered, so that the
entries that came in can be read off any state (`entries`), whatever order the
operations were made in.
-/
namespace OpLog.Library

variable {α : Type}

/-- One delivery: the entries dropped since the one before, then those delivered. -/
structure Delivery (α : Type) where
  dropped : List α
  delivered : List α
  deriving DecidableEq, Repr

structure DropQueue (α : Type) where
  history : List (Delivery α)
  dropped : List α
  queue : List α
  deriving DecidableEq, Repr

/-- The entries dropped before a delivery and then those in it. -/
def Delivery.entries (d : Delivery α) : List α := d.dropped ++ d.delivered

namespace DropQueue

def empty : DropQueue α := ⟨[], [], []⟩

/-- Every entry that came in, in order. -/
def entries (q : DropQueue α) : List α :=
  q.history.flatMap Delivery.entries ++ q.dropped ++ q.queue

def push (q : DropQueue α) (a : α) : DropQueue α := { q with queue := q.queue ++ [a] }

/-- Drop the `n` oldest entries. -/
def drop (q : DropQueue α) (n : Nat) : DropQueue α :=
  { q with dropped := q.dropped ++ q.queue.take n, queue := q.queue.drop n }

/-- Deliver the `n` oldest entries, and account for the drops before them. -/
def deliver (q : DropQueue α) (n : Nat) : DropQueue α :=
  ⟨q.history ++ [⟨q.dropped, q.queue.take n⟩], [], q.queue.drop n⟩

@[simp] theorem entries_push (q : DropQueue α) (a : α) :
    (q.push a).entries = q.entries ++ [a] := by
  simp [entries, push]

/-- Dropping changes what an entry's fate is, never which entries came in. -/
@[simp] theorem entries_drop (q : DropQueue α) (n : Nat) : (q.drop n).entries = q.entries := by
  unfold entries drop
  simp only [List.append_assoc, List.take_append_drop]

@[simp] theorem entries_deliver (q : DropQueue α) (n : Nat) :
    (q.deliver n).entries = q.entries := by
  simp only [entries, deliver, Delivery.entries, List.flatMap_append, List.flatMap_cons,
    List.flatMap_nil, List.append_nil, List.append_assoc, List.take_append_drop]

end DropQueue
end OpLog.Library
