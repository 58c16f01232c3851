import FeedIntake.Intake.Run

/-! # Cancellation

An activity that waits is called off: it leaves its line and learns of it when it moves next. One
that is ready to move is told to stop then. The owner of a round that waits for its members passes
the request on to them and ends when all of them have ended.
-/

namespace FeedIntake

namespace Intake

/-- Takes an activity out of every line that it may stand in. -/
def leaveLines (w : Intake) (a : ActivityId) : Intake :=
  let w := { w with
    queue := w.queue.leave a
    gateLine := w.gateLine.filter fun e => e.2 != a }
  match w.role? a with
  | some (.member r _) => w.onRound r fun x => { x with permits := x.permits.leave a }
  | _ => w

def callOff (w : Intake) (a : ActivityId) : Intake × Bool :=
  match w.activity? a with
  | none => (w, false)
  | some x =>
      match x.stage with
      | .finished _ => (w, false)
      | _ =>
          if x.waiting then
            let w := (w.leaveLines a).onActivity a fun x => { x with waiting := false }
            (w.call (.move a true), true)
          else (w.onActivity a fun x => { x with stopping := true }, true)

/-- Cancels all that have not ended and tells whether there were any. -/
def callOffAll (w : Intake) (members : List ActivityId) : Intake × Bool :=
  members.foldl (fun s m =>
    let (w, hit) := s.1.callOff m
    (w, s.2 || hit)) (w, false)

def gathered? (w : Intake) (a : ActivityId) : Option RoundId :=
  (w.activity? a).bind fun x =>
    match x.stage with
    | .gathering => if x.waiting then x.role.ownRound? else none
    | _ => none

/-- Cancels an activity, with the members of the round that it gathers. Tells whether the request
came in time. -/
def cancel (w : Intake) (a : ActivityId) : Intake × Bool :=
  match (w.gathered? a).bind fun r => (w.rounds[r]?).map fun round => (r, round) with
  | none => w.callOff a
  | some (r, round) =>
      let (w, hit) := w.callOffAll round.members
      if hit then (w.onRound r fun x => { x with stopping := true }, true)
      else (w.onActivity a fun x => { x with stopping := true }, true)

end Intake

end FeedIntake
