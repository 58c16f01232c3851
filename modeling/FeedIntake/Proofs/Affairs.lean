import FeedIntake.Intake.State
import FeedIntake.Proofs.Entries
import FeedIntake.Proofs.History
import Mathlib.Logic.Function.Basic
import Mathlib.Logic.Relation

/-! # The affairs of runs

An intake with all left out that decides who moves when. What remains is the store, the records in
the queue, the history, and where every run stands. Here a run takes one small turn at a time, one
entry after the other, and any turn of any run may come next. What holds whatever turns are taken
holds a fortiori of an intake, whose runs take many turns without a pause.
-/

namespace FeedIntake

open Time (DateTime)

/-- Where a run stands. -/
inductive Phase where
  /-- It has not begun, or there is no run. -/
  | idle
  /-- It has a result but is at no place where a run can be. -/
  | astray
  | asking (spec : JobSpec) (r : RunResult)
  | working (spec : JobSpec) (r : RunResult) (rest : List Entry)
  /-- It has admitted a record that is not yet in the queue. -/
  | offering (spec : JobSpec) (r : RunResult) (record : Record) (rest : List Entry)
  | ended (spec : JobSpec) (r : RunResult) (outcome : RunOutcome)

namespace Phase

def spec? : Phase → Option JobSpec
  | idle | astray => none
  | asking spec _ | working spec _ _ | offering spec _ _ _ | ended spec _ _ => some spec

def result? : Phase → Option RunResult
  | idle | astray => none
  | asking _ r | working _ r _ | offering _ r _ _ | ended _ r _ => some r

/-- How a run of a job ends before it is through with its entries. -/
inductive Stop (spec : JobSpec) : Phase → RunResult → RunOutcome → Prop where
  | noFeed {r : RunResult} (f : Failure) (hf : f.kind.isFeed = true) (now : DateTime) :
      Stop spec (asking spec r) (r.refuse f now) .done
  | foreign {r : RunResult} (fault : Fault) (hc : fault.isCancellation = false)
      (hf : ∀ f, fault = .failure f → f.kind.isFeed = false) :
      Stop spec (asking spec r) r (.failed fault)
  | cancelledAsking {r : RunResult} (now : DateTime) :
      Stop spec (asking spec r) (r.cancel now) .cancelled
  | unreadable {r : RunResult} {e : Entry} {rest : List Entry} (fault : Fault)
      (he : e.toRecord spec.source = .error fault) (now : DateTime) :
      Stop spec (working spec r (e :: rest)) (r.fail (JobSpec.processingError fault) now)
        (.failed (.failure (spec.processingFailure fault)))
  | putFailed {r : RunResult} {record : Record} {rest : List Entry} (fault : Fault)
      (hc : fault.isCancellation = false) (now : DateTime) :
      Stop spec (offering spec r record rest) (r.fail (JobSpec.processingError fault) now)
        (.failed (.failure (spec.processingFailure fault)))
  | cancelledOffering {r : RunResult} {record : Record} {rest : List Entry} (now : DateTime) :
      Stop spec (offering spec r record rest) (r.cancel now) .cancelled

end Phase

structure Affairs where
  store : Snapshots
  records : List Record
  history : History
  phase : ActivityId → Phase

namespace Affairs

def tell (s : Affairs) (e : Event) : Affairs := { s with history := e :: s.history }

def set (s : Affairs) (a : ActivityId) (p : Phase) : Affairs :=
  { s with phase := Function.update s.phase a p }

def push (s : Affairs) (record : Record) : Affairs := { s with records := s.records ++ [record] }

def commit (s : Affairs) (a : ActivityId) (spec : JobSpec) (identities : List String) : Affairs :=
  if spec.perpetual then
    ({ s with store := s.store.commit spec.source identities } : Affairs).tell
      (.did a spec (.committed identities))
  else s

@[simp] theorem set_phase_self (s : Affairs) (a : ActivityId) (p : Phase) :
    (s.set a p).phase a = p := by
  simp [set]

@[simp] theorem set_phase_of_ne (s : Affairs) {a b : ActivityId} (h : b ≠ a) (p : Phase) :
    (s.set a p).phase b = s.phase b := by
  simp [set, h]

@[simp] theorem set_set (s : Affairs) (a : ActivityId) (p q : Phase) :
    (s.set a p).set a q = s.set a q := by
  simp [set]

theorem set_eq_self {s : Affairs} {a : ActivityId} {p : Phase} (h : s.phase a = p) :
    s.set a p = s := by
  simp [set, ← h]

@[simp] theorem set_store (s : Affairs) (a : ActivityId) (p : Phase) :
    (s.set a p).store = s.store := rfl

@[simp] theorem set_records (s : Affairs) (a : ActivityId) (p : Phase) :
    (s.set a p).records = s.records := rfl

@[simp] theorem set_history (s : Affairs) (a : ActivityId) (p : Phase) :
    (s.set a p).history = s.history := rfl

/-! A run may be put somewhere before or after anything else happens. -/

@[simp] theorem tell_set (s : Affairs) (a : ActivityId) (p : Phase) (e : Event) :
    (s.set a p).tell e = (s.tell e).set a p := rfl

@[simp] theorem push_set (s : Affairs) (a : ActivityId) (p : Phase) (record : Record) :
    (s.set a p).push record = (s.push record).set a p := rfl

@[simp] theorem commit_set (s : Affairs) (a b : ActivityId) (p : Phase) (spec : JobSpec)
    (identities : List String) :
    (s.set a p).commit b spec identities = (s.commit b spec identities).set a p := by
  unfold commit
  split <;> rfl

/-- Every run is at a place where a run can be. -/
def Tidy (s : Affairs) : Prop := ∀ a, s.phase a ≠ .astray

/-- A turn of one run of a job. -/
inductive Turn (a : ActivityId) (spec : JobSpec) : Affairs → Affairs → Prop where
  | begin {s : Affairs} (now : DateTime) (h : s.phase a = .idle) :
      Turn a spec s (s.set a (.asking spec (spec.begun now)))
  | fetch {s : Affairs} {r : RunResult} (entries : List Entry) (h : s.phase a = .asking spec r) :
      Turn a spec s ((s.tell (.did a spec (.fetched entries))).set a
        (.working spec (r.takeUp entries.length) entries))
  | reject {s : Affairs} {r : RunResult} {e : Entry} {rest : List Entry} {record : Record}
      (h : s.phase a = .working spec r (e :: rest)) (he : e.toRecord spec.source = .ok record)
      (hv : spec.judge s.store record ≠ .admitted) :
      Turn a spec s ((s.tell (.did a spec (.judged record (spec.judge s.store record)))).set a
        (.working spec (r.examine record (spec.judge s.store record)) rest))
  | offer {s : Affairs} {r : RunResult} {e : Entry} {rest : List Entry} {record : Record}
      (h : s.phase a = .working spec r (e :: rest)) (he : e.toRecord spec.source = .ok record)
      (hv : spec.judge s.store record = .admitted) :
      Turn a spec s ((s.tell (.did a spec (.judged record .admitted))).set a
        (.offering spec (r.examine record .admitted) record rest))
  | put {s : Affairs} {r : RunResult} {record : Record} {rest : List Entry}
      (h : s.phase a = .offering spec r record rest) :
      Turn a spec s (((s.push record).tell (.did a spec (.put record))).set a
        (.working spec r.publish rest))
  | conclude {s : Affairs} {r : RunResult} (now : DateTime) (h : s.phase a = .working spec r []) :
      Turn a spec s ((s.commit a spec r.seen).set a
        (.ended spec (r.conclude spec.perpetual now) .done))
  | stop {s : Affairs} {r : RunResult} {outcome : RunOutcome}
      (h : Phase.Stop spec (s.phase a) r outcome) : Turn a spec s (s.set a (.ended spec r outcome))

inductive Take : Affairs → Affairs → Prop where
  | take {s : Affairs} {record : Record} {rest : List Record} (h : s.records = record :: rest) :
      Take s (({ s with records := rest } : Affairs).tell (.taken record))

abbrev Turns (a : ActivityId) (spec : JobSpec) : Affairs → Affairs → Prop :=
  Relation.ReflTransGen (Turn a spec)

abbrev Takes : Affairs → Affairs → Prop := Relation.ReflTransGen Take

/-- Any number of turns of any runs, with records taken in between. -/
def Course : Affairs → Affairs → Prop :=
  Relation.ReflTransGen fun s t => (∃ a spec, Turn a spec s t) ∨ Take s t

namespace Course

theorem refl (s : Affairs) : Course s s := Relation.ReflTransGen.refl

theorem trans {s t u : Affairs} (h : Course s t) (h' : Course t u) : Course s u :=
  Relation.ReflTransGen.trans h h'

theorem of_turns {a : ActivityId} {spec : JobSpec} {s t : Affairs} (h : Turns a spec s t) :
    Course s t := by
  induction h with
  | refl => exact refl s
  | tail _ turn ih => exact .tail ih (.inl ⟨a, spec, turn⟩)

theorem of_takes {s t : Affairs} (h : Takes s t) : Course s t := by
  induction h with
  | refl => exact refl s
  | tail _ take ih => exact .tail ih (.inr take)

end Course

theorem Turn.phase_of_ne {a b : ActivityId} {spec : JobSpec} {s t : Affairs}
    (turn : Turn a spec s t) (h : b ≠ a) : t.phase b = s.phase b := by
  cases turn with
  | conclude now hp =>
      rw [set_phase_of_ne _ h]
      unfold commit
      split <;> rfl
  | _ => exact set_phase_of_ne _ h _

/-- Whoever stands at a place where a run can be goes on to another such place. -/
theorem Turn.phase_ne_astray {a b : ActivityId} {spec : JobSpec} {s t : Affairs}
    (turn : Turn a spec s t) (h : s.phase b ≠ .astray) : t.phase b ≠ .astray := by
  by_cases hb : b = a
  · subst hb
    cases turn <;> rw [set_phase_self] <;> exact fun heq => by cases heq
  · rw [turn.phase_of_ne hb]
    exact h

theorem Take.phase {s t : Affairs} (take : Take s t) (b : ActivityId) : t.phase b = s.phase b := by
  cases take
  rfl

theorem Takes.phase {s t : Affairs} (takes : Takes s t) (b : ActivityId) :
    t.phase b = s.phase b := by
  induction takes with
  | refl => rfl
  | tail _ take ih => rw [take.phase, ih]

theorem Course.tidy {s t : Affairs} (course : Course s t) (h : s.Tidy) : t.Tidy := by
  intro b
  induction course with
  | refl => exact h b
  | tail _ step ih =>
      rcases step with ⟨a, spec, turn⟩ | take
      · exact turn.phase_ne_astray ih
      · rw [take.phase]
        exact ih

end Affairs

end FeedIntake
