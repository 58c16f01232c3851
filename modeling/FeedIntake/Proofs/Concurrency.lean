import FeedIntake.Proofs.Starts
import Mathlib.Data.List.Perm.Subperm

/-! # Runs at the same time

At no time are more runs of a round under way than its limit says. Every permit is either spare or
with one of them, whatever the runs meet and however they end, so that all are free again when the
round is over. By then every source has been run, and none was run twice.
-/

namespace FeedIntake

open Intake
open Time (DateTime Instant)

def Activity.isRunning (x : Activity) : Bool := x.result.isSome && !x.stage.hasEnded

theorem Staffed.specs {w : Intake} {r : RoundId} {members : List ActivityId} {spec : RoundSpec}
    {since : Instant} (staffed : Staffed w r members (spec.jobs since)) :
    members.filterMap w.specOf? = spec.sources.map (spec.jobFor since) := by
  have hall : members.filterMap w.specOf? = (spec.jobs since).map (·.1) := by
    have each := staffed.each
    clear staffed
    generalize spec.jobs since = jobs at *
    induction each with
    | nil => rfl
    | cons h _ ih =>
        obtain ⟨j, hrole, hjob⟩ := h
        rw [List.filterMap_cons, specOf?_of_member hrole hjob, List.map_cons, ← ih]
  rw [hall, RoundSpec.jobs, List.map_map]
  rfl

namespace Intake

def running (w : Intake) : Nat := w.activities.countP Activity.isRunning

section

variable {w : Intake} {round : Round} {limit : Nat} {s : SupplierId} {supplier : Supplier}
  {begun : List (ActivityId × JobSpec)}

theorem Conducts.running_eq (conducts : w.Conducts round limit) (htidy : w.affairs.Tidy) :
    w.running = w.headcount 0 Stage.isInside := by
  rw [running, headcount, posts, List.countP_map]
  refine List.countP_congr fun x hx => ?_
  obtain ⟨b, hb⟩ := List.getElem?_of_mem hx
  have hp : w.post? b = some x.post := by rw [post?_eq, activity?, hb, Option.map_some]
  have hresult : w.result? b = x.result := by rw [result?, activity?, hb, Option.bind_some]
  show x.isRunning = true ↔ x.post.counts 0 Stage.isInside = true
  rw [Activity.isRunning, ← hresult, show x.stage = x.post.stage from rfl]
  cases hmember : x.post.role.isMemberOf 0 with
  | false =>
      have hnone : (w.result? b).isSome = false := by
        by_contra hsome
        obtain ⟨p, hp', hrole⟩ :=
          conducts.exists_member_of_result htidy (Bool.of_not_eq_false hsome)
        rw [hp] at hp'
        cases hp'
        rw [hmember] at hrole
        cases hrole
      rw [hnone, Post.counts, hmember, Bool.false_and, Bool.false_and]
  | true =>
      rw [Post.counts_of_member hmember]
      cases hbegun : x.post.stage.hasBegun with
      | true =>
          rw [(conducts.members b _ hp hmember).begun hbegun, Bool.true_and]
          rw [Stage.hasBegun] at hbegun
          cases hinside : x.post.stage.isInside with
          | true => simp [Stage.hasEnded_of_isInside hinside]
          | false =>
              rw [hinside, Bool.false_or] at hbegun
              simp [hbegun]
      | false =>
          rw [result?_of_not_begun htidy hp hbegun]
          rw [Stage.hasBegun, Bool.or_eq_false_iff] at hbegun
          simp [hbegun.1]

theorem Lends.all_free {permits : Permits} (lends : w.Lends 0 permits limit)
    (hended : ∀ b p, w.post? b = some p → p.role.isMemberOf 0 = true → p.stage.hasEnded = true) :
    permits = .ofCount limit := by
  have hplaces (b : ActivityId) : w.placesAt 0 b = [] := by
    cases hp : w.post? b with
    | none =>
        rw [placesAt, hp]
        rfl
    | some p =>
        rw [placesAt_eq hp]
        cases hmember : p.role.isMemberOf 0 with
        | false => exact Post.places_of_not_member hmember
        | true =>
            obtain ⟨outcome, hat⟩ := Stage.hasEnded_iff.mp (hended b p hp hmember)
            exact Post.places_of_not_inLine (by rw [hat]; rfl)
  have hline : permits.line = [] := List.eq_nil_iff_forall_not_mem.mpr fun e hmem => by
    have hplace : e.2 ∈ permits.placesOf e.1 :=
      List.mem_map.mpr ⟨e, List.mem_filter.mpr ⟨hmem, beq_self_eq_true e.1⟩, rfl⟩
    rw [lends.places, hplaces] at hplace
    cases hplace
  have hinside : w.headcount 0 Stage.isInside = 0 := headcount_eq_zero fun b p hp hmember => by
    obtain ⟨outcome, hat⟩ := Stage.hasEnded_iff.mp (hended b p hp hmember)
    rw [hat]
    rfl
  have hbalance := lends.balance
  rw [hinside, Permits.spare, hline] at hbalance
  cases permits
  simp_all [Permits.ofCount]

/-! ## Which sources have been run -/

theorem Inquires.begun_mem (inquires : w.Inquires s supplier begun)
    (conducts : w.Conducts round limit) (htidy : w.affairs.Tidy) {m : ActivityId}
    (hm : m ∈ begun.map (·.1)) : ∃ p, w.post? m = some p ∧ p.role.isMemberOf 0 = true :=
  conducts.exists_member_of_result htidy ((inquires.each m).mp hm)

theorem Inquires.specs (inquires : w.Inquires s supplier begun) :
    (begun.map (·.1)).filterMap w.specOf? = begun.map (·.2) := by
  rw [List.filterMap_map, ← List.filterMap_eq_map]
  exact List.filterMap_congr fun e he => inquires.spec e he

/-- What the runs that have begun say of the sources of a round that read entries since then. -/
structure Covers (w : Intake) (spec : RoundSpec) (since : Instant)
    (begun : List (ActivityId × JobSpec)) : Prop where
  /-- None is run twice. -/
  once : (begun.map (·.2)).Subperm (spec.sources.map (spec.jobFor since))
  /-- When the round is over, all have been run. -/
  all : ∀ outcome, w.roundOutcome? 0 = some outcome → spec.sources ≠ [] →
    (begun.map (·.2)).Perm (spec.sources.map (spec.jobFor since)) ∧
      ∀ e ∈ begun, (w.outcome? e.1).isSome = true
  free : ∀ outcome round, w.roundOutcome? 0 = some outcome → spec.sources ≠ [] →
    w.rounds[0]? = some round → round.permits = .ofCount spec.limit.toNat

theorem Conducts.staffed_or_unmanned (conducts : w.Conducts round limit) {since : Instant}
    (hsince : thresholdOf round.spec.since = .ok since) :
    Staffed w 0 round.members (round.spec.jobs since) ∨ round.members = [] := by
  obtain ⟨p, -, -, footing, -⟩ := conducts.owner
  generalize p.stage = stage at footing
  cases footing with
  | fresh members | declined _ members _ | skipped _ members => exact .inr members
  | gathering _ hsince' staffed _ | closed _ hsince' staffed _ _ _ =>
      cases hsince.symm.trans hsince'
      exact .inl staffed

theorem Inquires.begun_of_unmanned (inquires : w.Inquires s supplier begun)
    (conducts : w.Conducts round limit) (htidy : w.affairs.Tidy) (members : round.members = []) :
    begun = [] := by
  refine List.eq_nil_iff_forall_not_mem.mpr fun e he => ?_
  obtain ⟨p, hp, hmember⟩ := inquires.begun_mem conducts htidy (List.mem_map_of_mem he)
  rw [conducts.unmanned members hp] at hmember
  cases hmember

theorem Inquires.subperm (inquires : w.Inquires s supplier begun)
    (conducts : w.Conducts round limit) (htidy : w.affairs.Tidy)
    {jobs : List (JobSpec × SupplierId)} (staffed : Staffed w 0 round.members jobs) :
    (begun.map (·.1)).Subperm round.members := by
  refine inquires.nodup.subperm fun m hm => ?_
  obtain ⟨p, hp, hmember⟩ := inquires.begun_mem conducts htidy hm
  exact staffed.mem_of_post hp hmember

/-- A round that could begin has an outcome when all its members have ended. -/
theorem Conducts.over (conducts : w.Conducts round limit) {since : Instant}
    (hlimit : 0 ≤ round.spec.limit) (hsince : thresholdOf round.spec.since = .ok since)
    (hsources : round.spec.sources ≠ []) {outcome : RunOutcome}
    (houtcome : w.roundOutcome? 0 = some outcome) :
    Staffed w 0 round.members (round.spec.jobs since) ∧ limit = round.spec.limit.toNat ∧
      ∀ b p, w.post? b = some p → p.role.isMemberOf 0 = true → p.stage.hasEnded = true := by
  cases conducts.footing_of_outcome houtcome with
  | declined _ _ h =>
      cases h with
      | limit h => exact absurd hlimit (Int.not_le.mpr h)
      | threshold _ h => cases h.symm.trans hsince
  | skipped hempty _ => exact absurd hempty hsources
  | closed _ hsince' staffed lent all _ =>
      cases hsince.symm.trans hsince'
      exact ⟨staffed, lent, fun b p hp hmember => conducts.all_ended all hp hmember⟩

theorem Inquires.perm (inquires : w.Inquires s supplier begun)
    (conducts : w.Conducts round limit) (htidy : w.affairs.Tidy)
    {jobs : List (JobSpec × SupplierId)} (staffed : Staffed w 0 round.members jobs)
    (hended : ∀ b p, w.post? b = some p → p.role.isMemberOf 0 = true → p.stage.hasEnded = true) :
    (begun.map (·.1)).Perm round.members := by
  refine (List.perm_ext_iff_of_nodup inquires.nodup staffed.nodup).mpr fun m =>
    ⟨fun hm => (inquires.subperm conducts htidy staffed).subset hm, fun hm => ?_⟩
  obtain ⟨p, hp, hmember⟩ := staffed.exists_post hm
  refine (inquires.each m).mpr ((conducts.members m p hp hmember).begun ?_)
  rw [Stage.hasBegun, hended m p hp hmember, Bool.or_true]

theorem Inquires.covers (inquires : w.Inquires s supplier begun)
    (conducts : w.Conducts round limit) (htidy : w.affairs.Tidy) {since : Instant}
    (hlimit : 0 ≤ round.spec.limit) (hsince : thresholdOf round.spec.since = .ok since) :
    w.Covers round.spec since begun where
  once := by
    rcases conducts.staffed_or_unmanned hsince with staffed | members
    · rw [← inquires.specs, ← staffed.specs]
      obtain ⟨l, hperm, hsublist⟩ := inquires.subperm conducts htidy staffed
      exact ⟨_, hperm.filterMap _, hsublist.filterMap _⟩
    · rw [inquires.begun_of_unmanned conducts htidy members]
      exact List.nil_subperm
  all := fun outcome houtcome hsources => by
    obtain ⟨staffed, -, hended⟩ := conducts.over hlimit hsince hsources houtcome
    refine ⟨?_, fun e he => ?_⟩
    · rw [← inquires.specs, ← staffed.specs]
      exact (inquires.perm conducts htidy staffed hended).filterMap _
    · obtain ⟨p, hp, hmember⟩ := inquires.begun_mem conducts htidy (List.mem_map_of_mem he)
      obtain ⟨known, hfinished⟩ := Stage.hasEnded_iff.mp (hended _ p hp hmember)
      rw [(outcome?_eq_some_iff w e.1).mpr ⟨p, hp, hfinished⟩]
      rfl
  free := fun outcome known houtcome hsources hround => by
    obtain ⟨-, lent, hended⟩ := conducts.over hlimit hsince hsources houtcome
    rw [conducts.rounds] at hround
    cases hround
    exact lent ▸ conducts.lends.all_free hended

/-- The permits that are not spare are with runs under way, once there are any. -/
theorem Conducts.lent (conducts : w.Conducts round limit) (htidy : w.affairs.Tidy) :
    round.members = [] ∧ w.running = 0 ∨
      round.permits.spare + w.running = round.spec.limit.toNat ∧
        ∃ since, thresholdOf round.spec.since = .ok since := by
  have hnone (members : round.members = []) : w.running = 0 :=
    (conducts.running_eq htidy).trans (conducts.nobody members _)
  have hbalance := conducts.lends.balance
  rw [← conducts.running_eq htidy] at hbalance
  obtain ⟨p, -, -, footing, -⟩ := conducts.owner
  generalize p.stage = stage at footing
  cases footing with
  | fresh members | declined _ members _ | skipped _ members => exact .inl ⟨members, hnone members⟩
  | gathering _ hsince _ lent | closed _ hsince _ lent _ _ =>
      exact .inr ⟨lent ▸ hbalance, _, hsince⟩

end

/-! ## Rounds -/

/-- How the runs of a round are kept within its limit, if these have begun. -/
structure Regulated (w : Intake) (supplier : Supplier) (spec : RoundSpec)
    (begun : List (ActivityId × JobSpec)) : Prop where
  bounded : w.running ≤ spec.limit.toNat
  /-- A permit is either spare or with a run that is under way. -/
  lent : ∀ round, w.rounds[0]? = some round → round.members ≠ [] →
    round.permits.spare + w.running = spec.limit.toNat
  inquires : w.Inquires 0 supplier begun
  covers : ∀ since, thresholdOf spec.since = .ok since → w.Covers spec since begun
  /-- Where it cannot be said since when entries are read, nobody begins. -/
  unread : ∀ fault, thresholdOf spec.since = .error fault → begun = []

/-- **Whatever the runs of a round meet, no more are under way than its limit says.** Each source is
run at most once, the permits come back however a run ends, and when the round is over every source
has been run, if it can be said since when entries are read. -/
theorem runs_regulated {now : DateTime} {queue : RecordQueue} {store : Snapshots}
    {web : List (String × Response)} {supplier : Supplier} {spec : RoundSpec} {w : Intake}
    (hputters : queue.putters = []) (hgetters : queue.getters = []) (hlimit : 1 ≤ spec.limit)
    (proceeds : Proceeds (ofRound now queue store web supplier spec) w) :
    ∃ begun, w.Regulated supplier spec begun := by
  obtain ⟨round, limit, conducts, hspec⟩ := conducts_of_ofRound hputters hgetters proceeds
  obtain ⟨begun, inquires⟩ := inquires_of_ofRound hputters hgetters proceeds
  have htidy := (reaches_of_ofRound proceeds).tidy_of_start
  have hcovers (since : Instant) (h : 0 ≤ round.spec.limit)
      (hsince : thresholdOf round.spec.since = .ok since) : w.Covers round.spec since begun :=
    inquires.covers conducts htidy h hsince
  have hlent := conducts.lent htidy
  rw [hspec] at hcovers hlent
  refine ⟨begun, ?_, fun known hround hmembers => ?_, inquires, fun since hsince => ?_,
    fun fault hfault => ?_⟩
  · rcases hlent with ⟨-, hnone⟩ | ⟨hbalance, -⟩
    · exact hnone ▸ Nat.zero_le _
    · exact hbalance ▸ Nat.le_add_left _ _
  · rw [conducts.rounds] at hround
    cases hround
    exact (hlent.resolve_left fun h => hmembers h.1).1
  · have covers := hcovers since (Int.le_of_lt hlimit) hsince
    exact ⟨covers.once, covers.all, covers.free⟩
  · rcases hlent with ⟨members, -⟩ | ⟨-, since, hsince⟩
    · exact inquires.begun_of_unmanned conducts htidy members
    · cases hfault.symm.trans hsince

def oneAtATime : Intake :=
  ofRound Instant.first.toDateTime (.holding 1 []) .unbounded [] twoFeeds
    { RoundSpec.ofSources ["a", "b"] with limit := 1 }

theorem runs_regulated_oneAtATime : ∃ w begun, Proceeds oneAtATime w ∧
    w.roundOutcome? 0 = some .done ∧
      w.Regulated twoFeeds { RoundSpec.ofSources ["a", "b"] with limit := 1 } begun := by
  have proceeds := ((ticks_proceeds 3 oneAtATime).trans (takeOne_proceeds _)).trans
    (ticks_proceeds 7 _)
  obtain ⟨begun, regulated⟩ := runs_regulated rfl rfl (by decide) proceeds
  exact ⟨_, begun, proceeds, rfl, regulated⟩

/-- If it cannot be said since when entries are read, the round ends without running a source. -/
theorem unread_sources_not_run : ∃ (spec : RoundSpec) (w : Intake), 1 ≤ spec.limit ∧
    spec.sources = ["a"] ∧ Proceeds (ofRound Instant.first.toDateTime (.ofCapacity 0) .unbounded []
      twoFeeds spec) w ∧ w.roundOutcome? 0 = some (.failed .overflow) ∧ w.fetches = [] ∧
    ∀ m, w.result? m = none :=
  ⟨{ RoundSpec.ofSources ["a"] with since := beforeTime }, _, by decide, rfl, ticks_proceeds 1 _,
    rfl, rfl, fun m => by cases m <;> rfl⟩

end Intake

end FeedIntake
