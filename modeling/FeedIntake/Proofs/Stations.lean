import FeedIntake.Proofs.Hall
import FeedIntake.Proofs.Ledger

/-! # Stations

The station of somebody is all that an intake shows of it: its post, what is due for it and its
places in the lines. An operation on an intake changes the station of the one it is about, and of
the one that it wakes, and leaves all others where they are.
-/

namespace FeedIntake

namespace Permits

def placesOf (p : Permits) (b : ActivityId) : List Bool :=
  (p.line.filter fun e => e.1 == b).map (·.2)

theorem placesOf_join_self (p : Permits) (a : ActivityId) :
    (p.join a).placesOf a = p.placesOf a ++ [false] := by
  simp [placesOf, join]

theorem placesOf_join_of_ne (p : Permits) {a b : ActivityId} (h : b ≠ a) :
    (p.join a).placesOf b = p.placesOf b := by
  simp [placesOf, join, Ne.symm h]

theorem placesOf_leave_self (p : Permits) (a : ActivityId) : (p.leave a).placesOf a = [] := by
  simp [placesOf, leave]

theorem placesOf_leave_of_ne (p : Permits) {a b : ActivityId} (h : b ≠ a) :
    (p.leave a).placesOf b = p.placesOf b := by
  unfold placesOf leave
  rw [List.filter_filter]
  congr 1
  refine List.filter_congr fun e _ => ?_
  by_cases he : e.1 = b <;> simp [he, h]

theorem placesOf_cons (free : Nat) (first : ActivityId × Bool) (rest : List (ActivityId × Bool))
    (b : ActivityId) : placesOf ⟨free, first :: rest⟩ b =
      if first.1 = b then first.2 :: placesOf ⟨free, rest⟩ b else placesOf ⟨free, rest⟩ b := by
  simp only [placesOf, List.filter_cons, beq_iff_eq]
  split <;> rfl

/-- Whoever is marked had a place without a permit, and then has it with one. -/
theorem placesOf_mark {line marked : List (ActivityId × Bool)} {a : ActivityId}
    (h : mark line = some (marked, a)) (free free' : Nat) :
    false ∈ placesOf ⟨free, line⟩ a ∧
      (placesOf ⟨free, line⟩ a = [false] → placesOf ⟨free', marked⟩ a = [true]) ∧
      ∀ b, b ≠ a → placesOf ⟨free', marked⟩ b = placesOf ⟨free, line⟩ b := by
  induction line generalizing marked with
  | nil => cases h
  | cons first rest ih =>
      obtain ⟨b, served⟩ := first
      cases served with
      | false =>
          cases h
          simp only [placesOf_cons]
          refine ⟨by simp, fun honly => ?_, fun b' hb' => ?_⟩
          · simpa [placesOf] using honly
          · rw [if_neg (Ne.symm hb'), if_neg (Ne.symm hb')]
            rfl
      | true =>
          obtain ⟨⟨marked', a'⟩, hrest, heq⟩ := Option.map_eq_some_iff.mp h
          cases heq
          obtain ⟨hmem, honly, hothers⟩ := ih hrest
          simp only [placesOf_cons]
          refine ⟨?_, fun hsame => ?_, fun b' hb' => by rw [hothers b' hb']⟩
          · split
            · exact List.mem_cons_of_mem _ hmem
            · exact hmem
          · split at hsame
            · cases hsame
            · rename_i hb
              rw [if_neg hb]
              exact honly hsame

theorem false_notMem_placesOf {line : List (ActivityId × Bool)} (h : mark line = none)
    (free : Nat) (b : ActivityId) : false ∉ placesOf ⟨free, line⟩ b := by
  induction line with
  | nil => simp [placesOf]
  | cons first rest ih =>
      obtain ⟨a, served⟩ := first
      cases served with
      | false => cases h
      | true =>
          have hrest := ih (Option.map_eq_none_iff.mp h)
          rw [placesOf_cons]
          split
          · simpa using hrest
          · exact hrest

/-- Either the first in line without a permit is given one, or nobody lacks one. -/
theorem grant_cases (p : Permits) :
    (∃ a, p.grant.2 = some a ∧ p.grant.1.free = p.free - 1 ∧ false ∈ p.placesOf a ∧
      (p.placesOf a = [false] → p.grant.1.placesOf a = [true]) ∧
      ∀ b, b ≠ a → p.grant.1.placesOf b = p.placesOf b) ∨
    p.grant = (p, none) ∧ ∀ b, false ∉ p.placesOf b := by
  unfold grant
  split
  · rename_i line a hmark
    exact .inl ⟨a, rfl, rfl, placesOf_mark hmark p.free _⟩
  · rename_i hmark
    exact .inr ⟨rfl, false_notMem_placesOf hmark p.free⟩

end Permits

/-- What an intake shows of somebody. -/
structure Station where
  post : Option Post
  calls : List Bool
  putting : Nat
  places : List Bool

namespace Intake

def station (w : Intake) (b : ActivityId) : Station where
  post := w.post? b
  calls := w.calls b
  putting := w.queue.putters.count b
  places := w.rounds.flatMap fun x => x.permits.placesOf b

section

variable (w : Intake) {a b : ActivityId}

theorem station_of_scene {w' : Intake} (h : w'.scene = w.scene) (b : ActivityId) :
    w'.station b = w.station b := by
  have hqueue := congrArg Scene.queue h
  have hputters : w'.queue.putters = w.queue.putters := (congrArg RecordQueue.putters hqueue :)
  rw [station, station, post?_of_scene h, calls_of_scene h, hputters, rounds_of_scene h]

theorem station_onActivity_of_ne (h : b ≠ a) (f : Activity → Activity) :
    (w.onActivity a f).station b = w.station b := by
  rw [station, post?_onActivity_of_ne w a b h]
  rfl

theorem station_onActivity_self (a : ActivityId) {f : Activity → Activity} {g : Post → Post}
    (h : ∀ x, (f x).post = g x.post) : (w.onActivity a f).station a =
      { w.station a with post := (w.station a).post.map g } := by
  rw [station, post?_onActivity w a a h, if_pos rfl]
  rfl

theorem station_call (c : Call) (b : ActivityId) : (w.call c).station b =
    { w.station b with calls := (w.station b).calls ++ (c.calledOff? b).toList } := by
  rw [station, calls_call]
  rfl

theorem station_call_of_ne (h : b ≠ a) (calledOff : Bool) :
    (w.call (.move a calledOff)).station b = w.station b := by
  rw [station_call, Call.calledOff?, if_neg (Ne.symm h), Option.toList_none, List.append_nil]

theorem station_call_note (r : RoundId) (b : ActivityId) :
    (w.call (.note r)).station b = w.station b := by
  rw [station_call, Call.calledOff?, Option.toList_none, List.append_nil]

theorem station_wake_of_ne (h : b ≠ a) : (w.wake a).station b = w.station b :=
  (station_call_of_ne _ h false).trans (station_onActivity_of_ne w h _)

theorem station_wake_self (a : ActivityId) : (w.wake a).station a = { w.station a with
    post := (w.station a).post.map Post.awake
    calls := (w.station a).calls ++ [false] } := by
  rw [wake, station_call, station_onActivity_self w a (g := Post.awake) (by exact fun _ => rfl),
    Call.calledOff?, if_pos rfl]
  rfl

theorem station_withQueue (q : RecordQueue) (b : ActivityId) :
    ({ w with queue := q } : Intake).station b =
      { w.station b with putting := q.putters.count b } := rfl

variable {w} in
theorem station_onRound {round : Round} (h : w.rounds = [round]) (f : Round → Round)
    (b : ActivityId) : (w.onRound 0 f).station b =
      { w.station b with places := (f round).permits.placesOf b } := by
  have hrounds : (w.onRound 0 f).rounds = [f round] := by simp [onRound, h]
  rw [station, hrounds, List.flatMap_singleton]
  rfl

/-! ## Calls -/

section

variable {before after : List Call} {calledOff : Bool}

theorem calls_of_ready (hready : w.ready = before ++ .move a calledOff :: after) :
    w.calls a = before.filterMap (Call.calledOff? a) ++
      calledOff :: after.filterMap (Call.calledOff? a) := by
  rw [calls, hready, List.filterMap_append, List.filterMap_cons, Call.calledOff?, if_pos rfl]

theorem station_attend_of_ne (hready : w.ready = before ++ .move a calledOff :: after)
    (hb : b ≠ a) : (w.attend a (before ++ after)).station b = w.station b := by
  have hcalls : calls { w with ready := before ++ after } b = w.calls b := by
    rw [calls, calls, hready, List.filterMap_append, List.filterMap_append, List.filterMap_cons,
      Call.calledOff?, if_neg (Ne.symm hb)]
  rw [attend, station_onActivity_of_ne _ hb, station, hcalls]
  rfl

theorem station_attend_self (hready : w.ready = before ++ .move a calledOff :: after)
    {due : Bool} (hdue : (w.station a).calls = [due]) : calledOff = due ∧
      (w.attend a (before ++ after)).station a = { w.station a with
        post := (w.station a).post.map fun p => { p with stopping := false }
        calls := [] } := by
  have hcalls := calls_of_ready w hready
  rw [show w.calls a = [due] from hdue] at hcalls
  cases hbefore : before.filterMap (Call.calledOff? a) with
  | cons first rest => rw [hbefore] at hcalls; simp at hcalls
  | nil =>
      rw [hbefore, List.nil_append] at hcalls
      obtain ⟨rfl, hafter⟩ := List.cons_eq_cons.mp hcalls
      refine ⟨rfl, ?_⟩
      have hnone : calls { w with ready := before ++ after } a = [] := by
        rw [calls, List.filterMap_append, hbefore, ← hafter, List.nil_append]
      rw [attend, station_onActivity_self _ a (g := fun p => { p with stopping := false })
        (by exact fun _ => rfl), station, hnone]
      rfl

theorem count_note_wake (w : Intake) (a : ActivityId) (r : RoundId) :
    (w.wake a).ready.count (.note r) = w.ready.count (.note r) := by
  show (w.ready ++ [Call.move a false]).count _ = _
  simp

theorem count_note_wakeAny (w : Intake) (someone : Option ActivityId) (r : RoundId) :
    (w.wakeAny someone).ready.count (.note r) = w.ready.count (.note r) := by
  cases someone with
  | none => rfl
  | some a => exact count_note_wake w a r

theorem count_note_attend (hready : w.ready = before ++ .move a calledOff :: after)
    (r : RoundId) :
    (w.attend a (before ++ after)).ready.count (.note r) = w.ready.count (.note r) := by
  show (before ++ after).count _ = _
  rw [hready]
  simp [List.count_append]

end

end

end Intake

open Intake

/-- What does not decide who goes on is carried along: suppliers, jobs and roles stay as they are,
results are kept, and what is taken is told. -/
structure Carries (w w' : Intake) : Prop where
  suppliers : w'.suppliers = w.suppliers
  web : w'.web = w.web
  jobs : w'.jobSpecs = w.jobSpecs
  roles : ∀ b, w'.role? b = w.role? b
  results : ∀ b, (w.result? b).isSome = true → (w'.result? b).isSome = true
  toll : w.taken = w.history.recordsTaken → w'.taken = w'.history.recordsTaken

namespace Carries

variable {w u w' : Intake}

theorem refl (w : Intake) : Carries w w := ⟨rfl, rfl, rfl, fun _ => rfl, fun _ => id, id⟩

theorem trans (h : Carries w u) (h' : Carries u w') : Carries w w' where
  suppliers := h'.suppliers.trans h.suppliers
  web := h'.web.trans h.web
  jobs := h'.jobs.trans h.jobs
  roles := fun b => (h'.roles b).trans (h.roles b)
  results := fun b hb => h'.results b (h.results b hb)
  toll := fun ht => h'.toll (h.toll ht)

theorem onActivity (w : Intake) (a : ActivityId) {f : Activity → Activity}
    (hrole : ∀ x, (f x).role = x.role) (hresult : ∀ x, (f x).result = x.result) :
    Carries w (w.onActivity a f) where
  suppliers := rfl
  web := rfl
  jobs := rfl
  roles := fun b => role?_onActivity w a b hrole
  results := fun b hb => by
    rw [result?_of_ledger (ledger_onActivity w a hrole hresult)]
    exact hb
  toll := id

theorem call (w : Intake) (c : Call) : Carries w (w.call c) :=
  ⟨rfl, rfl, rfl, fun _ => rfl, fun _ => id, id⟩

theorem onRound (w : Intake) (r : RoundId) (f : Round → Round) : Carries w (w.onRound r f) :=
  ⟨rfl, rfl, rfl, fun _ => rfl, fun _ => id, id⟩

theorem queue (w : Intake) (q : RecordQueue) : Carries w { w with queue := q } :=
  ⟨rfl, rfl, rfl, fun _ => rfl, fun _ => id, id⟩

theorem wake (w : Intake) (a : ActivityId) : Carries w (w.wake a) :=
  (onActivity w a (by exact fun _ => rfl) (by exact fun _ => rfl)).trans (call _ _)

theorem wakeAny (w : Intake) (someone : Option ActivityId) : Carries w (w.wakeAny someone) := by
  cases someone with
  | none => exact refl w
  | some a => exact wake w a

theorem withQueue (w : Intake) (q : RecordQueue × Option ActivityId) :
    Carries w (w.withQueue q) := (queue w q.1).trans (wakeAny _ q.2)

theorem withPermits (w : Intake) (r : RoundId) (p : Permits × Option ActivityId) :
    Carries w (w.withPermits r p) := (onRound w r _).trans (wakeAny _ p.2)

theorem attend (w : Intake) (a : ActivityId) (due : List Call) : Carries w (w.attend a due) :=
  .trans (u := { w with ready := due }) ⟨rfl, rfl, rfl, fun _ => rfl, fun _ => id, id⟩
    (onActivity _ a (by exact fun _ => rfl) (by exact fun _ => rfl))

theorem of_scene (h : w'.scene = w.scene)
    (results : ∀ b, (w.result? b).isSome = true → (w'.result? b).isSome = true)
    (taken : w'.taken = w.taken)
    (history : w'.history.recordsTaken = w.history.recordsTaken) : Carries w w' where
  suppliers := congrArg Scene.suppliers h
  web := congrArg Scene.web h
  jobs := congrArg Scene.jobs h
  roles := fun b => by rw [role?_eq, role?_eq, post?_of_scene h]
  results := results
  toll := fun ht => by rw [taken, ht, history]

end Carries

end FeedIntake
