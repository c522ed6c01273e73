import Storyline.Node

/-!
# Notifications

A notifier tells every subscriber when a scenario starts and when it finishes. Each subscriber has a
receiver, where what is sent waits until it is taken. That a receiver has been dropped is noticed
only when something is sent to it.
-/

namespace Storyline

/-- What is told about a scenario. -/
inductive Notification where
  | started (category : Category)
  | finished (category : Category)
  deriving DecidableEq, Repr

/-- The end of a subscription at which notifications arrive. -/
structure Receiver where
  inbox : List Notification
  dropped : Bool
  deriving DecidableEq, Repr

/-- The receivers handed out so far, and the numbers of those that are sent to, both in the order
of subscription. -/
structure Notifier where
  receivers : List Receiver
  subscribers : List Nat
  deriving DecidableEq, Repr

namespace Receiver

/-- A receiver at which nothing has arrived. -/
def fresh : Receiver := ⟨[], false⟩

/-- A receiver behind whose inbox a notification has been put. -/
def put (r : Receiver) (what : Notification) : Receiver :=
  { r with inbox := r.inbox ++ [what] }

/-- A receiver that is no longer used. -/
def drop (r : Receiver) : Receiver :=
  { r with inbox := [], dropped := true }

end Receiver

namespace Notifier

/-- A notifier that nobody has subscribed to. -/
def empty : Notifier := ⟨[], []⟩

/-- Adds a subscriber, who is known by the number of receivers before. -/
def subscribe (n : Notifier) : Notifier :=
  ⟨n.receivers ++ [.fresh], n.subscribers ++ [n.receivers.length]⟩

/-- The receivers after a notification was sent to one of them. This fails if it was dropped. -/
def send? (what : Notification) (who : Nat) (receivers : List Receiver) : Option (List Receiver) :=
  match receivers[who]? with
  | some r => if r.dropped then none else some (receivers.set who (r.put what))
  | none => none

/-- Sends a notification to some receivers one after the other: those of them to which it could be
sent, and all receivers afterwards. -/
def deliver (what : Notification) : List Nat → List Receiver → List Nat × List Receiver
  | [], receivers => ([], receivers)
  | who :: others, receivers =>
    match send? what who receivers with
    | some receivers =>
      let (kept, receivers) := deliver what others receivers
      (who :: kept, receivers)
    | none => deliver what others receivers

/-- Sends a notification to every subscriber, and forgets those whose receivers were dropped. -/
def emit (n : Notifier) (what : Notification) : Notifier :=
  let (kept, receivers) := deliver what n.subscribers n.receivers
  ⟨receivers, kept⟩

/-- Drops the receiver of a number. -/
def drop (n : Notifier) (who : Nat) : Notifier :=
  { n with receivers := n.receivers.modify who Receiver.drop }

/-- The first notification that waits at a receiver, and the notifier after it has been taken. -/
def receive (n : Notifier) (who : Nat) : Option Notification × Notifier :=
  match n.receivers[who]? with
  | some ⟨what :: rest, dropped⟩ =>
    (some what, { n with receivers := n.receivers.set who ⟨rest, dropped⟩ })
  | _ => (none, n)

/-- All notifications that wait at a receiver, and the notifier after they have been taken. -/
def receiveAll (n : Notifier) (who : Nat) : List Notification × Notifier :=
  match n.receivers[who]? with
  | some r => (r.inbox, { n with receivers := n.receivers.set who { r with inbox := [] } })
  | none => ([], n)

/-- How many subscribers are sent to. -/
def subscriberCount (n : Notifier) : Nat :=
  n.subscribers.length

end Notifier

end Storyline
