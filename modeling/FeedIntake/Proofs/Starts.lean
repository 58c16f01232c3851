import FeedIntake.Proofs.Conduct

/-! # Each begins once

A member of a round asks for its feed as it begins, and it begins once. So what has been asked is
what those who have begun were to ask, once each, in the order in which they began.
-/

namespace FeedIntake

open Intake
open Time (DateTime)

theorem OwnerMove.asked {a : ActivityId} {r : RoundId} {w w' : Intake} {stage : Stage}
    (move : OwnerMove a r w stage w') : w'.asked = w.asked := by
  cases move with
  | rest => rfl
  | breaks entries hinders => rfl
  | skips hr hempty => rfl
  | begins entries hr hsources hlimit hsince =>
      rw [staff_eq]
      rfl
  | gathers entries hr hresults => rfl

namespace Intake

/-- Who has begun a run, in the order of the beginnings, and what they have asked of a supplier. -/
structure Inquires (w : Intake) (s : SupplierId) (supplier : Supplier)
    (begun : List (ActivityId × JobSpec)) : Prop where
  nodup : (begun.map (·.1)).Nodup
  each : ∀ m, m ∈ begun.map (·.1) ↔ (w.result? m).isSome = true
  spec : ∀ e ∈ begun, w.specOf? e.1 = some e.2
  asked : w.asked = (begun.flatMap fun e => supplier.fetchFor s e.2,
    begun.flatMap fun e => supplier.requestFor e.2)

section

variable {S : ActivityId → Prop} {w w' : Intake} {a : ActivityId} {round : Round} {limit : Nat}
  {s : SupplierId} {supplier : Supplier} {begun : List (ActivityId × JobSpec)}

theorem result?_of_not_begun (htidy : w.affairs.Tidy) {p : Post} (hp : w.post? a = some p)
    (h : p.stage.hasBegun = false) : w.result? a = none := by
  obtain ⟨x, hx, rfl⟩ := Option.map_eq_some_iff.mp ((post?_eq w a).symm.trans hp)
  have hc : w.view.core a = some x.core := by rw [view_core, hx, Option.map_some]
  refine (phase_idle_iff w a).mp (View.phase_eq_idle_of_standing hc (fun spec r => ?_) (htidy a))
  have hstage : x.stage.hasBegun = false := h
  show View.standing spec r x.stage = .astray
  cases hat : x.stage <;> first
    | rfl
    | rw [hat] at hstage; cases hstage

theorem Inquires.keep (inquires : w.Inquires s supplier begun)
    (hextends : w'.plan.Extends w.plan)
    (hresults : ∀ b, (w'.result? b).isSome = (w.result? b).isSome) (hasked : w'.asked = w.asked) :
    w'.Inquires s supplier begun where
  nodup := inquires.nodup
  each := fun m => by rw [inquires.each, hresults]
  spec := fun e he => hextends.spec (inquires.spec e he)
  asked := hasked.trans inquires.asked

theorem Inquires.begin (inquires : w.Inquires s supplier begun)
    (hextends : w'.plan.Extends w.plan) {job : JobSpec} (hspec : w.specOf? a = some job)
    (hnone : w.result? a = none) (hsome : (w'.result? a).isSome = true)
    (hothers : ∀ b, b ≠ a → w'.result? b = w.result? b)
    (hasked : w'.asked = (w.fetches ++ supplier.fetchFor s job,
      w.requests ++ supplier.requestFor job)) :
    w'.Inquires s supplier (begun ++ [(a, job)]) where
  nodup := by
    rw [List.map_append]
    refine List.nodup_append.mpr ⟨inquires.nodup, List.pairwise_singleton _ _, ?_⟩
    intro m hm other hother
    rw [show other = a from List.mem_singleton.mp hother]
    rintro rfl
    rw [inquires.each, hnone] at hm
    cases hm
  each := fun m => by
    rw [List.map_append, List.mem_append, inquires.each]
    by_cases hm : m = a
    · subst hm
      simp [hsome]
    · simp [hothers m hm, hm]
  spec := fun e he => by
    rcases List.mem_append.mp he with hold | hnew
    · exact hextends.spec (inquires.spec e hold)
    · rw [List.mem_singleton.mp hnew]
      exact hextends.spec hspec
  asked := by
    obtain ⟨hfetches, hrequests⟩ := Prod.mk.inj inquires.asked
    rw [hasked, hfetches, hrequests, List.flatMap_append, List.flatMap_append,
      List.flatMap_singleton, List.flatMap_singleton]

theorem Inquires.member_moves (inquires : w.Inquires s supplier begun)
    (conducts : w.Conducts round limit) (uncalled : Uncalled w) (order : Orderly S w)
    (htidy : w.affairs.Tidy) (hs : round.spec.supplier = s)
    (hsupplier : w.suppliers[s]? = some supplier) {before after : List Call}
    {calledOff : Bool} (hready : w.ready = before ++ .move a calledOff :: after) {p : Post}
    (hp : w.post? a = some p) (hmember : p.role.isMemberOf 0 = true) :
    ∃ begun, (({ w with ready := before ++ after } : Intake).move a calledOff).Inquires s supplier
      begun := by
  have step : CalmStep w (({ w with ready := before ++ after } : Intake).move a calledOff) :=
    .happen before (.move a calledOff) after hready
  have hextends := (step.goes uncalled order htidy).plan_extends
  have hothers (b : ActivityId) (hb : b ≠ a) :
      (({ w with ready := before ++ after } : Intake).move a calledOff).result? b = w.result? b :=
    result?_move_of_ne hb (before ++ after) calledOff
  have hattended := result?_of_ledger (ledger_attend w a (before ++ after))
  rcases (conducts.member_shifts uncalled order hready hp hmember).asks with
    ⟨hasked, hsame⟩ | ⟨hfresh, asks, hsome⟩
  · refine ⟨begun, inquires.keep hextends (fun b => ?_) hasked⟩
    by_cases hb : b = a
    · subst hb
      cases hbegun : p.stage.hasBegun with
      | false => rw [hsame hbegun, hattended]
      | true =>
          have hbefore := (conducts.members b p hp hmember).begun hbegun
          rw [hbefore, step.step.result?_mono hbefore]
    · rw [hothers b hb]
  · obtain ⟨j, job, s', known, hj, hjob, hknown, hasked⟩ := asks
    obtain ⟨k, since, source, -, hrole, hrun⟩ := conducts.exists_job hp hmember
    have hspec := specOf?_of_member hrole hrun
    rw [jobOf?, ((uncalled.attend hready hp).2 a).role?, hrole] at hj
    cases hj
    obtain ⟨rfl, rfl⟩ := Prod.mk.inj (Option.some.inj (hrun.symm.trans hjob))
    have hsame : some known = some supplier := by rw [← hsupplier, ← hs]; exact hknown.symm
    cases hsame
    rw [hs] at hasked
    exact ⟨_, inquires.begin hextends hspec (result?_of_not_begun htidy hp hfresh) hsome hothers
      hasked⟩

theorem Inquires.owner_moves (inquires : w.Inquires s supplier begun) (uncalled : Uncalled w)
    (order : Orderly S w) (htidy : w.affairs.Tidy) {before after : List Call} {calledOff : Bool}
    (hready : w.ready = before ++ .move a calledOff :: after) {p : Post} (hp : w.post? a = some p)
    (hround : p.role = .round 0) : (({ w with ready := before ++ after } : Intake).move a
      calledOff).Inquires s supplier begun := by
  have step : CalmStep w (({ w with ready := before ++ after } : Intake).move a calledOff) :=
    .happen before (.move a calledOff) after hready
  have move := Intake.owner_moves uncalled hready hp hround
  have hresult : (({ w with ready := before ++ after } : Intake).move a calledOff).result? =
      w.result? := by
    rcases move_writes { w with ready := before ++ after } a calledOff with
      added | ⟨j, hj, -⟩
    · exact added.result
    · have hrole : w.role? a = some (.round 0) := by rw [role?_eq, hp, Option.map_some, hround]
      rw [jobOf?, show ({ w with ready := before ++ after } : Intake).role? a = _ from hrole] at hj
      cases hj
  exact inquires.keep (step.goes uncalled order htidy).plan_extends
    (fun b => by rw [hresult]) move.asked

/-- **Whatever happens if nobody interferes, somebody begins once or nobody asks.** -/
theorem CalmStep.inquires (step : CalmStep w w') (inquires : w.Inquires s supplier begun)
    (conducts : w.Conducts round limit) (uncalled : Uncalled w) (order : Orderly S w)
    (htidy : w.affairs.Tidy) (hs : round.spec.supplier = s)
    (hsupplier : w.suppliers[s]? = some supplier) : ∃ begun, w'.Inquires s supplier begun := by
  have hextends := (step.goes uncalled order htidy).plan_extends
  cases step with
  | happen before c after hready =>
      cases c with
      | move a calledOff =>
          cases hp : w.post? a with
          | none =>
              rw [post?_eq, Option.map_eq_none_iff] at hp
              rw [Intake.happen, move_of_nobody hp]
              exact ⟨begun, inquires.keep (.refl _) (fun _ => rfl) rfl⟩
          | some p =>
              rcases conducts.crew a p hp with hround | hmember
              · exact ⟨begun, inquires.owner_moves uncalled order htidy hready hp hround⟩
              · exact inquires.member_moves conducts uncalled order htidy hs hsupplier hready hp
                  hmember
      | note r =>
          refine ⟨begun, inquires.keep hextends (fun b => ?_) ?_⟩
          · exact congrArg Option.isSome (congrFun (result?_of_ledger
              (ledger_note { w with ready := before ++ after } r)) b)
          · exact asked_note { w with ready := before ++ after } r
  | clock now => exact ⟨begun, inquires.keep hextends (fun _ => rfl) rfl⟩
  | openGate source =>
      exact ⟨begun, inquires.keep hextends
        (fun b => by rw [result?_of_ledger (ledger_openGate w source)]) (asked_openGate w source)⟩
  | takeOne htake =>
      obtain ⟨⟨first, queue, putter⟩, -, heq⟩ := Option.map_eq_some_iff.mp htake
      cases heq
      exact ⟨begun, inquires.keep hextends
        (fun b => by rw [result?_of_ledger (ledger_withQueue _ _)]; rfl) (asked_withQueue _ _)⟩

end

/-- In a round alone each member begins once, from the beginning on. -/
theorem inquires_of_ofRound {now : DateTime} {queue : RecordQueue} {store : Snapshots}
    {web : List (String × Response)} {supplier : Supplier} {spec : RoundSpec}
    (hputters : queue.putters = []) (hgetters : queue.getters = []) {w : Intake}
    (proceeds : Proceeds (ofRound now queue store web supplier spec) w) :
    ∃ begun, w.Inquires 0 supplier begun := by
  induction proceeds with
  | refl =>
      refine ⟨[], .nil, fun m => ?_, (fun _ h => by cases h), rfl⟩
      have hidle := (phase_idle_iff (ofRound now queue store web supplier spec) m).mp
        (by rw [affairs_ofRound])
      simp [hidle]
  | tail before step ih =>
      obtain ⟨begun, inquires⟩ := ih
      obtain ⟨round, limit, conducts, hspec⟩ := conducts_of_ofRound hputters hgetters before
      obtain ⟨goes, -⟩ := goes_ofRound hputters hgetters before
      exact step.inquires inquires conducts goes.uncalled
        (Reaches.orderly (Proceeds.reaches before)
          (orderly_ofRound now hputters hgetters store web supplier spec))
        (reaches_of_ofRound before).tidy_of_start (by rw [hspec])
        (by rw [goes.settled.suppliers]; rfl)

end Intake

end FeedIntake
