import FeedIntake.Record

/-! # The record queue

A first-in first-out queue that holds at most so many records. Who finds it full stands in line and
is woken, one for every record taken; being woken gives no right to the place, which another may
have taken in the meantime. Who finds it empty stands in a line of its own.
-/

namespace FeedIntake

/-- What is going on at the same time is known by a number. -/
abbrev ActivityId := Nat

structure RecordQueue where
  /-- How many records there is room for, nought for any number. -/
  capacity : Nat
  records : List Record
  /-- Who waits for room, first in line first. -/
  putters : List ActivityId
  /-- Who waits for a record, first in line first. -/
  getters : List ActivityId
  /-- Records put and not yet done with. -/
  unfinished : Nat
  /-- How many puts it still takes before every one fails, and how it fails. -/
  refusal : Option (Nat × Fault)
  deriving Inhabited

namespace RecordQueue

def ofCapacity (capacity : Nat) : RecordQueue := ⟨capacity, [], [], [], 0, none⟩

def isFull (q : RecordQueue) : Bool := q.capacity != 0 && q.capacity ≤ q.records.length

def isEmpty (q : RecordQueue) : Bool := q.records.isEmpty

/-- Counts a call to put and tells whether it is one of those that fail. -/
def accept (q : RecordQueue) : Except Fault RecordQueue :=
  match q.refusal with
  | none => .ok q
  | some (0, fault) => .error fault
  | some (n + 1, fault) => .ok { q with refusal := some (n, fault) }

def push (q : RecordQueue) (r : Record) : RecordQueue × Option ActivityId :=
  ({ q with
      records := q.records ++ [r], unfinished := q.unfinished + 1, getters := q.getters.tail },
    q.getters.head?)

def pop (q : RecordQueue) : Option (Record × RecordQueue × Option ActivityId) :=
  match q.records with
  | [] => none
  | r :: rest => some (r, { q with records := rest, putters := q.putters.tail }, q.putters.head?)

def settleOne (q : RecordQueue) : RecordQueue := { q with unfinished := q.unfinished - 1 }

def awaitRoom (q : RecordQueue) (a : ActivityId) : RecordQueue :=
  { q with putters := q.putters ++ [a] }

def awaitRecord (q : RecordQueue) (a : ActivityId) : RecordQueue :=
  { q with getters := q.getters ++ [a] }

def leave (q : RecordQueue) (a : ActivityId) : RecordQueue :=
  { q with putters := q.putters.erase a, getters := q.getters.erase a }

def nextPutter (q : RecordQueue) : RecordQueue × Option ActivityId :=
  ({ q with putters := q.putters.tail }, q.putters.head?)

def nextGetter (q : RecordQueue) : RecordQueue × Option ActivityId :=
  ({ q with getters := q.getters.tail }, q.getters.head?)

theorem push_records (q : RecordQueue) (r : Record) :
    (q.push r).1.records = q.records ++ [r] := rfl

theorem accept_of_refusal {q : RecordQueue} (h : q.refusal = none) : q.accept = .ok q := by
  unfold accept
  rw [h]

theorem accept_records {q q' : RecordQueue} (h : q.accept = .ok q') : q'.records = q.records := by
  unfold accept at h
  split at h <;> cases h <;> rfl

theorem pop_records {q q' : RecordQueue} {r : Record} {putter : Option ActivityId}
    (h : q.pop = some (r, q', putter)) : q.records = r :: q'.records := by
  unfold pop at h
  split at h
  · cases h
  · rename_i hrecords
    cases h
    exact hrecords

theorem pop_eq_none_iff (q : RecordQueue) : q.pop = none ↔ q.records = [] := by
  unfold pop
  split <;> simp_all

end RecordQueue

end FeedIntake
