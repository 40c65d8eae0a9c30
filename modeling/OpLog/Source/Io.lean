import Mathlib.Algebra.Ring.Nat
import Mathlib.Tactic.Common

/-!
# Calls on a log file

What the worker's I/O calls do to the one file they are about. The content of a file
is `none` when the file is absent. Every call may fail, with any error; what a failing
call has already done to the file is part of its outcome. `Effect` runs calls one after
another, stops at the first error (the `?` of the source) and keeps the operations that
reached the disk in order, so that every content the file went through can be read off.

A call that is still pending when `WRITE_TIMEOUT` expires is represented by its failure
with `timedOut`: the future is dropped at that point and its caller sees that error. Where
the source ignores the failure of a call the two differ, and the call is an `Awaited`.
-/
namespace OpLog.Source

abbrev Bytes := List UInt8

inductive IoError where
  | notFound | permissionDenied | notADirectory | storageFull | timedOut | unexpectedEof
  | invalidInput | other (text : String)
  deriving DecidableEq, Repr

abbrev IoResult (α : Type) := Except IoError α

/-- An operation that changed the file. `setLen` is only ever used to shorten it. -/
inductive DiskOp where
  | create
  | append (bytes : Bytes)
  | setLen (len : Nat)
  deriving DecidableEq, Repr

/-- `create` is `File::create`: it makes the file, or truncates it to zero length. -/
def DiskOp.apply : DiskOp → Option Bytes → Option Bytes
  | .create, _ => some []
  | .append bytes, content => content.map (· ++ bytes)
  | .setLen len, content => content.map (·.take len)

def applyOps (ops : List DiskOp) (content : Option Bytes) : Option Bytes :=
  ops.foldl (fun c op => op.apply c) content

/-- The content after each operation, in order. -/
def contents : List DiskOp → Option Bytes → List (Option Bytes)
  | [], _ => []
  | op :: ops, content => op.apply content :: contents ops (op.apply content)

/-- A call whose failure its caller ignores. -/
inductive Awaited where
  | ready (result : IoResult Unit)
  | pending
  deriving Repr

/-- The operations a computation issued, in order, and how it ended. -/
structure Effect (α : Type) where
  ops : List DiskOp
  result : IoResult α

namespace Effect
variable {α β : Type}

def pure (a : α) : Effect α := ⟨[], .ok a⟩

def bind (e : Effect α) (next : α → Effect β) : Effect β :=
  match e.result with
  | .ok a => ⟨e.ops ++ (next a).ops, (next a).result⟩
  | .error err => ⟨e.ops, .error err⟩

instance : Monad Effect where
  pure := pure
  bind := bind

/-- A call that leaves the file as it is. -/
def call (outcome : IoResult α) : Effect α := ⟨[], outcome⟩

/-- The result of a call that came back; one still pending ends the computation. -/
def await : Awaited → Effect (IoResult Unit)
  | .ready result => pure result
  | .pending => call (.error .timedOut)

theorem bind_eq (e : Effect α) (next : α → Effect β) : e >>= next =
    match e.result with
    | .ok a => ⟨e.ops ++ (next a).ops, (next a).result⟩
    | .error err => ⟨e.ops, .error err⟩ := rfl

end Effect

/-- `write_all`: all of `bytes`, or an error after some of them. -/
inductive WriteOutcome where
  | done
  | failed (error : IoError) (written : Nat)
  deriving DecidableEq, Repr

def writeAll (outcome : WriteOutcome) (bytes : Bytes) : Effect Unit :=
  match outcome with
  | .done => ⟨[.append bytes], .ok ()⟩
  | .failed error written => ⟨[.append (bytes.take written)], .error error⟩

/-- `File::create`: an error usually leaves the file alone; `touched` is the call that
timed out and was completed on the blocking pool all the same. -/
inductive CreateOutcome where
  | done
  | failed (error : IoError) (touched : Bool)
  deriving DecidableEq, Repr

def createFile (outcome : CreateOutcome) : Effect Unit :=
  match outcome with
  | .done => ⟨[.create], .ok ()⟩
  | .failed error touched => ⟨if touched then [.create] else [], .error error⟩

def setLen (outcome : IoResult Unit) (len : Nat) : Effect Unit :=
  match outcome with
  | .ok () => ⟨[.setLen len], .ok ()⟩
  | .error error => ⟨[], .error error⟩

/-! ## Contents along a sequence of operations -/

@[simp] theorem applyOps_nil (content : Option Bytes) : applyOps [] content = content := rfl

@[simp] theorem applyOps_cons (op : DiskOp) (ops : List DiskOp) (content : Option Bytes) :
    applyOps (op :: ops) content = applyOps ops (op.apply content) := rfl

theorem applyOps_append (ops more : List DiskOp) (content : Option Bytes) :
    applyOps (ops ++ more) content = applyOps more (applyOps ops content) := by
  simp [applyOps]

theorem contents_append (ops more : List DiskOp) (content : Option Bytes) :
    contents (ops ++ more) content = contents ops content ++ contents more (applyOps ops content) := by
  induction ops generalizing content with
  | nil => rfl
  | cons op ops ih => simp only [List.cons_append, contents, applyOps_cons, ih]

end OpLog.Source
