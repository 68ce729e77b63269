/-!
# Stop channels

A stop channel tells any number of observers, once and for all, to stop. Triggers raise its flag;
signals watch it. Both are handles: triggers can be cloned and dropped, signals cloned and taken from
a trigger. A signal remembers the last write it has seen, and waiting on it means: look at the flag,
and if it is down, wait for a write that has not been seen or for the last trigger to go.
-/

namespace RaceSteward

/-- The shared part of a channel. -/
structure StopChannel where
  raised : Bool
  /-- How many writes there have been. -/
  version : Nat
  /-- How many triggers there are. -/
  triggers : Nat
  deriving DecidableEq, Repr

namespace StopChannel

/-- A channel with one trigger and its flag down. -/
def fresh : StopChannel := ⟨false, 0, 1⟩

def raise (c : StopChannel) : StopChannel :=
  { c with raised := true, version := c.version + 1 }

/-- Reads the flag; the last write counts as seen from here on. -/
def look (c : StopChannel) : Bool × Nat :=
  (c.raised, c.version)

/-- What a signal that has seen `seen` writes learns about further ones. -/
inductive News where
  /-- There is a write it has not seen. -/
  | written
  /-- No trigger is left to write. -/
  | over
  | none
  deriving DecidableEq, Repr

def news (c : StopChannel) (seen : Nat) : News :=
  if c.version ≠ seen then .written else if c.triggers = 0 then .over else .none

/-- How a wait stands. -/
inductive Poll where
  | ready
  | pending
  deriving DecidableEq, Repr

/-- One attempt to end a wait, with the writes seen after it: look at the flag; while it is down,
only news ends the wait. News of a write leads back to the flag, so right after a look there is
none of that kind. -/
def poll (c : StopChannel) : Poll × Nat :=
  let (raised, seen) := c.look
  if raised then (.ready, seen)
  else match c.news seen with
    | .over => (.ready, seen)
    | .written => (.pending, seen)
    | .none => (.pending, seen)

/-- A further attempt of a wait that has found nothing before: it stands where it waits for news. A
write leads back to the flag, and without any trigger the wait is over. -/
def repoll (c : StopChannel) (seen : Nat) : Poll × Nat :=
  match c.news seen with
  | .written => c.poll
  | .over => (.ready, seen)
  | .none => (.pending, seen)

end StopChannel

/-- Every channel, and every handle by the order in which it was made. -/
structure StopHandles where
  channels : List StopChannel
  /-- The channel of each trigger, none for one that has been dropped. -/
  triggers : List (Option Nat)
  /-- The channel of each signal and the writes it has seen. -/
  signals : List (Nat × Nat)
  deriving DecidableEq, Repr

namespace StopHandles

/-- One channel with one trigger and one signal. -/
def start : StopHandles := ⟨[.fresh], [some 0], [(0, 0)]⟩

inductive Op where
  /-- A trigger of a channel of its own. -/
  | new
  | cloneTrigger (trigger : Nat)
  | cloneSignal (signal : Nat)
  | subscribe (trigger : Nat)
  | trigger (trigger : Nat)
  | dropTrigger (trigger : Nat)
  | wait (signal : Nat)
  deriving DecidableEq, Repr

/-- The channel of a trigger that still exists. -/
def channelOf? (s : StopHandles) (trigger : Nat) : Option Nat :=
  (s.triggers[trigger]?).join

/-- Whether the flag of a channel is up. -/
def isRaised (s : StopHandles) (channel : Nat) : Bool :=
  match s.channels[channel]? with
  | some c => c.raised
  | none => false

def modifyChannel (s : StopHandles) (channel : Nat) (f : StopChannel → StopChannel) : StopHandles :=
  { s with channels := s.channels.modify channel f }

/-- What each trigger reads, none for one that has been dropped. -/
def readTriggers (s : StopHandles) : List (Option Bool) :=
  s.triggers.map (·.map s.isRaised)

/-- What each signal reads. -/
def readSignals (s : StopHandles) : List Bool :=
  s.signals.map fun signal => s.isRaised signal.1

/-- One operation, with the outcome of a wait. An operation on a handle that does not exist does
nothing. -/
def step (s : StopHandles) : Op → Option StopChannel.Poll × StopHandles
  | .new =>
    (none, { s with
      channels := s.channels ++ [.fresh], triggers := s.triggers ++ [some s.channels.length] })
  | .cloneTrigger i =>
    match s.channelOf? i with
    | some c =>
      let s := s.modifyChannel c fun ch => { ch with triggers := ch.triggers + 1 }
      (none, { s with triggers := s.triggers ++ [some c] })
    | none => (none, s)
  | .cloneSignal i =>
    match s.signals[i]? with
    | some signal => (none, { s with signals := s.signals ++ [signal] })
    | none => (none, s)
  | .subscribe i =>
    match s.channelOf? i with
    | some c =>
      let seen := ((s.channels[c]?).map (·.version)).getD 0
      (none, { s with signals := s.signals ++ [(c, seen)] })
    | none => (none, s)
  | .trigger i =>
    match s.channelOf? i with
    | some c => (none, s.modifyChannel c .raise)
    | none => (none, s)
  | .dropTrigger i =>
    match s.channelOf? i with
    | some c =>
      let s := s.modifyChannel c fun ch => { ch with triggers := ch.triggers - 1 }
      (none, { s with triggers := s.triggers.set i none })
    | none => (none, s)
  | .wait i =>
    match s.signals[i]? with
    | some (c, _) =>
      match s.channels[c]? with
      | some ch =>
        let (poll, seen) := ch.poll
        (some poll, { s with signals := s.signals.set i (c, seen) })
      | none => (none, s)
    | none => (none, s)

/-- A further attempt of a wait on a signal that has found nothing before. -/
def repoll (s : StopHandles) (signal : Nat) : Option StopChannel.Poll × StopHandles :=
  match s.signals[signal]? with
  | some (c, seen) =>
    match s.channels[c]? with
    | some ch =>
      let (poll, seen) := ch.repoll seen
      (some poll, { s with signals := s.signals.set signal (c, seen) })
    | none => (none, s)
  | none => (none, s)

def run (s : StopHandles) : List Op → StopHandles
  | [] => s
  | op :: ops => (s.step op).2.run ops

end StopHandles

end RaceSteward
