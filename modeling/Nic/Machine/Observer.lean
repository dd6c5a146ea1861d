/-
Telling others about changes.

An observer keeps the set of parts that changed since it was last asked, and sends each change to
its subscribers at once. A subscriber that is no longer interested is forgotten when the next
change is sent.
-/
import Std.Data.ExtTreeSet
import Nic.Machine.Change

set_option autoImplicit false

namespace Nic

/-- Someone who asked for changes. -/
inductive Subscriber where
  /-- Still interested, with the changes sent and not yet received, in order. -/
  | active (mailbox : Array Change)
  /-- No longer interested, which the observer does not know yet. -/
  | dropped
  /-- Known to be no longer interested. -/
  | forgotten
deriving DecidableEq

namespace Subscriber

/-- Sends a change. -/
def send (c : Change) : Subscriber → Subscriber
  | active mailbox => active (mailbox.push c)
  | dropped => forgotten
  | forgotten => forgotten

/-- Whether the observer counts this subscriber. -/
def isCounted : Subscriber → Bool
  | forgotten => false
  | _ => true

/-- Loses interest. -/
def drop : Subscriber → Subscriber
  | active _ => dropped
  | s => s

end Subscriber

/-- An observer (`ChangeObserver`): the changes since it was last asked, and everyone who ever asked
for changes, in order. -/
structure Observer where
  pending : Std.ExtTreeSet Change
  subscribers : Array Subscriber

namespace Observer

/-- No changes and no subscribers (`ChangeObserver::new`). -/
def new : Observer := ⟨∅, #[]⟩

/-- Forgets the changes so far (`ChangeObserver::clear`). -/
def clear (o : Observer) : Observer := { o with pending := ∅ }

/-- Notes a change and sends it to the subscribers (`ChangeObserver::notify`). -/
def notify (o : Observer) (c : Change) : Observer :=
  ⟨o.pending.insert c, o.subscribers.map (·.send c)⟩

/-- Notes changes in order. -/
def notifyAll (o : Observer) (cs : List Change) : Observer :=
  cs.foldl notify o

/-- Whether a part changed (`ChangeObserver::changed`). -/
def changed (o : Observer) (c : Change) : Bool :=
  o.pending.contains c

/-- The changes so far, sorted, which are then forgotten (`ChangeObserver::take_changes`). -/
def takeChanges (o : Observer) : List Change × Observer :=
  (o.pending.toList, o.clear)

/-- A new subscriber, by its number (`ChangeObserver::subscribe`). -/
def subscribe (o : Observer) : Nat × Observer :=
  (o.subscribers.size, { o with subscribers := o.subscribers.push (.active #[]) })

/-- The number of subscribers that the observer has not forgotten
(`ChangeObserver::subscriber_count`). -/
def subscriberCount (o : Observer) : Nat :=
  o.subscribers.countP (·.isCounted)

/-- The changes that a subscriber has not received yet, which it then has; none if it has lost
interest or does not exist. -/
def receive (o : Observer) (number : Nat) : Option (List Change) × Observer :=
  match o.subscribers[number]? with
  | some (.active mailbox) =>
    (some mailbox.toList,
      { o with subscribers := o.subscribers.setIfInBounds number (.active #[]) })
  | _ => (none, o)

/-- A subscriber loses interest. -/
def drop (o : Observer) (number : Nat) : Observer :=
  { o with subscribers := o.subscribers.modify number Subscriber.drop }

end Observer

end Nic
