/-!
# Mailboxes

A channel with room for one value, between a sender that keeps only the newest one in it and a
receiver. Before putting a value the sender takes out what the receiver has left; the receiver
may come in between.
-/

namespace ShaderGraph

inductive Sender (α : Type) where
  | idle
  | clearing (a : α)
  | putting (a : α)
deriving DecidableEq, Repr

structure Mailbox (α : Type) where
  pending : Option α := none
  sender : Sender α := .idle
deriving DecidableEq, Repr

namespace Mailbox

variable {α : Type}

def offer (m : Mailbox α) (a : α) : Mailbox α := { m with sender := .clearing a }

def clear (m : Mailbox α) : Mailbox α :=
  match m.sender with
  | .clearing a => { pending := none, sender := .putting a }
  | _ => m

def put? (m : Mailbox α) : Option (Mailbox α) :=
  match m.sender, m.pending with
  | .putting a, none => some { pending := some a, sender := .idle }
  | _, _ => none

def take (m : Mailbox α) : Option α × Mailbox α := (m.pending, { m with pending := none })

def send (m : Mailbox α) (a : α) : Mailbox α := ((m.offer a).clear.put?).getD m

end Mailbox

end ShaderGraph
