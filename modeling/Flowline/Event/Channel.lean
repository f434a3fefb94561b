import Flowline.Event.Basic

/-! An unbounded channel from one run to one receiver. Nothing that happens to the receiving end
fails a run: once the channel is closed or its receiver is gone, further events are lost. -/

namespace Flowline

/-- The two ends of a channel and what is under way between them. -/
structure Channel where
  /-- Sent and not yet received, oldest first. -/
  queue : List Event
  /-- The sending end has been closed, or has found the receiver gone. -/
  closed : Bool
  dropped : Bool
deriving Inhabited

namespace Channel

def empty : Channel := ⟨[], false, false⟩

def isActive (c : Channel) : Bool := !c.closed && !c.dropped

/-- Sends an event. The first one that finds the receiver gone closes the channel. -/
def emit (c : Channel) (e : Event) : Channel :=
  if c.closed then c
  else if c.dropped then { c with closed := true }
  else { c with queue := c.queue ++ [e] }

def close (c : Channel) : Channel := { c with closed := true }

def drop (c : Channel) : Channel := { c with queue := [], dropped := true }

def receive (c : Channel) : Option Event × Channel :=
  match c.queue with
  | [] => (none, c)
  | e :: r => (some e, { c with queue := r })

def emitAll (c : Channel) (es : List Event) : Channel := es.foldl emit c

@[simp] theorem isActive_empty : empty.isActive = true := rfl
@[simp] theorem isActive_close (c : Channel) : c.close.isActive = false := by
  simp [isActive, close]
@[simp] theorem isActive_drop (c : Channel) : c.drop.isActive = false := by simp [isActive, drop]

/-- A channel that is not active stays as silent as it is. -/
theorem queue_emit (c : Channel) (e : Event) :
    (c.emit e).queue = if c.isActive then c.queue ++ [e] else c.queue := by
  obtain ⟨q, closed, dropped⟩ := c
  cases closed <;> cases dropped <;> rfl

@[simp] theorem isActive_emit (c : Channel) (e : Event) : (c.emit e).isActive = c.isActive := by
  obtain ⟨q, closed, dropped⟩ := c
  cases closed <;> cases dropped <;> rfl

@[simp] theorem isActive_receive (c : Channel) : c.receive.2.isActive = c.isActive := by
  simp only [receive]
  split <;> rfl

end Channel

end Flowline
