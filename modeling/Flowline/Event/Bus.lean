import Flowline.Event.Basic

/-! A bus from one sender to any number of subscribers. It retains the latest events only, as many
as its capacity, which is a power of two. A subscriber that has fallen behind is told once how many
events it missed and goes on with the oldest one retained. -/

namespace Flowline

def powerOfTwoAbove (n : Nat) : Nat := if n ≤ 1 then 1 else Nat.pow 2 ((n - 1).log2 + 1)

/-- A bus retains as many events as it is asked to. -/
theorem le_powerOfTwoAbove (n : Nat) : n ≤ powerOfTwoAbove n := by
  simp only [powerOfTwoAbove, Nat.pow_eq]
  split
  · assumption
  · have := Nat.lt_log2_self (n := n - 1)
    omega

/-- The bus and its subscribers, who are told apart by their places in the list. -/
structure Bus where
  capacity : Nat
  sent : List Event
  /-- How many events each subscriber is past; none for one that receives nothing any more. -/
  subscribers : List (Option Nat)
  closed : Bool
deriving Inhabited

namespace Bus

/-- What a subscriber gets when it asks for the next event. -/
inductive Receipt where
  | event (e : Event)
  | lagged (missed : Nat)
  | empty
  | closed
  | dropped
deriving Inhabited

def ofCapacity (n : Nat) : Bus := ⟨powerOfTwoAbove n, [], [], false⟩

def defaultCapacity : Nat := 256

def emit (b : Bus) (e : Event) : Bus := if b.closed then b else { b with sent := b.sent ++ [e] }

def subscribe (b : Bus) : Bus :=
  { b with subscribers := b.subscribers ++ [if b.closed then none else some b.sent.length] }

def unsubscribe (b : Bus) (i : Nat) : Bus := { b with subscribers := b.subscribers.set i none }

def close (b : Bus) : Bus := { b with closed := true }

def forgotten (b : Bus) : Nat := b.sent.length - b.capacity

/-- The next event of a subscriber. One that has fallen behind is told how far, and is brought to
the oldest event retained. -/
def receive (b : Bus) (i : Nat) : Receipt × Bus :=
  match b.subscribers[i]? with
  | some (some n) =>
    if n < b.forgotten then
      (.lagged (b.forgotten - n), { b with subscribers := b.subscribers.set i (some b.forgotten) })
    else
      match b.sent[n]? with
      | some e => (.event e, { b with subscribers := b.subscribers.set i (some (n + 1)) })
      | none => (if b.closed then .closed else .empty, b)
  | _ => (.dropped, b)

end Bus

end Flowline
