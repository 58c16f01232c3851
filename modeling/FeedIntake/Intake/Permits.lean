import FeedIntake.Intake.Queue

/-! # Permits

So many activities may do something at the same time. A permit that is given back goes to the first
in line that has none yet. Who was given one stays in line until it moves on, and nobody overtakes
those in line.
-/

namespace FeedIntake

structure Permits where
  free : Nat
  /-- Who stands in line, and whether a permit has been given to them. -/
  line : List (ActivityId × Bool)
  deriving Inhabited

namespace Permits

def ofCount (n : Nat) : Permits := ⟨n, []⟩

def isTaken (p : Permits) : Bool := p.free == 0 || !p.line.isEmpty

def take (p : Permits) : Permits := { p with free := p.free - 1 }

def join (p : Permits) (a : ActivityId) : Permits := { p with line := p.line ++ [(a, false)] }

def leave (p : Permits) (a : ActivityId) : Permits :=
  { p with line := p.line.filter fun e => e.1 != a }

/-- Marks the first in line that has no permit. -/
def mark : List (ActivityId × Bool) → Option (List (ActivityId × Bool) × ActivityId)
  | [] => none
  | (a, true) :: rest => (mark rest).map fun r => ((a, true) :: r.1, r.2)
  | (a, false) :: rest => some ((a, true) :: rest, a)

/-- Gives a free permit to the first in line that has none, who is then to be woken. -/
def grant (p : Permits) : Permits × Option ActivityId :=
  match mark p.line with
  | some (line, a) => (⟨p.free - 1, line⟩, some a)
  | none => (p, none)

def release (p : Permits) : Permits × Option ActivityId := grant { p with free := p.free + 1 }

/-- Moves on with the permit given. If more are free, the next in line is served too. -/
def moveOn (p : Permits) (a : ActivityId) : Permits × Option ActivityId :=
  let p := p.leave a
  if p.free = 0 then (p, none) else p.grant

def giveUp (p : Permits) (a : ActivityId) : Permits × Option ActivityId := (p.leave a).release

end Permits

end FeedIntake
