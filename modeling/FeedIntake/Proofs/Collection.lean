import FeedIntake.CommandLine.Session
import FeedIntake.Proofs.Apart
import FeedIntake.Proofs.Collecting
import FeedIntake.Proofs.Fetching
import FeedIntake.Proofs.Thorough
import Mathlib.Data.List.Nodup

/-! # What a collecting round collects

A round over different sources begins beside somebody who takes its records. It shows a hall where
all are due, and there is no more work to do than the intake has patience for. So the round comes to
its end, and what was collected of a source is what its run admitted.
-/

namespace FeedIntake

open Affairs
open Intake
open Time (DateTime Instant)

namespace Intake

/-- An intake where a round over one supplier is about to begin, with somebody to take its records
as they come. -/
def ofCollection (now : DateTime) (capacity : Nat) (store : Snapshots)
    (web : List (String × Response)) (supplier : Supplier) (spec : RoundSpec) : Intake :=
  (((start now (.ofCapacity capacity) store web).addSupplier supplier).1.startCollecting
    { spec with supplier := 0 }).1

/-- A call of the program collects over the network. -/
theorem collect_eq (settings : Settings) (world : CommandLine.Surroundings) (spec : RoundSpec)
    (store : Snapshots) : (CommandLine.collect settings world spec store).1 =
      (ofCollection world.now settings.reading.queueSize store (world.webFor spec)
        (.network settings.fetcher) spec).settle := rfl

section

variable {now : DateTime} {capacity : Nat} {store : Snapshots} {web : List (String × Response)}
  {supplier : Supplier} {spec : RoundSpec} {since : Instant}

/-- That intake when the round has just begun and all its members are due. -/
def collectionBegun (now : DateTime) (capacity : Nat) (store : Snapshots)
    (web : List (String × Response)) (supplier : Supplier) (spec : RoundSpec) (since : Instant) :
    Intake :=
  { start now (.ofCapacity capacity) store web with
    suppliers := [supplier]
    jobs := spec.sources.map fun source => ⟨spec.jobFor since source, 0, .idle, none⟩
    activities := ⟨.collector 0 1, .gathering, true, false, none⟩ :: .ofRole .taker ::
      (List.range spec.sources.length).map fun j => .ofRole (.member 0 j)
    ready := .move 1 false :: (List.range spec.sources.length).map fun j => .move (2 + j) false
    rounds := [{ Round.new { spec with supplier := 0 } 0 with
      permits := .ofCount spec.limit.toNat
      members := (List.range spec.sources.length).map (2 + ·) }]
    logs := [Round.startEntry spec.sources.length] }

theorem reaches_ofCollection (now : DateTime) (capacity : Nat) (store : Snapshots)
    (web : List (String × Response)) (supplier : Supplier) (spec : RoundSpec) :
    Reaches (start now (.ofCapacity capacity) store web)
      (ofCollection now capacity store web supplier spec) :=
  .tail (.single (.addSupplier _ supplier)) (.startCollecting _ { spec with supplier := 0 })

theorem tick_ofCollection (hsources : spec.sources ≠ []) (hlimit : 1 ≤ spec.limit)
    (hsince : thresholdOf spec.since = .ok since) :
    (ofCollection now capacity store web supplier spec).tick =
      collectionBegun now capacity store web supplier spec since := by
  have hbegin (w : Intake) {round : Round} (hround : w.rounds[0]? = some round)
      (hspec : round.spec = { spec with supplier := 0 }) : w.beginRound 0 0 =
      (((w.log [Round.startEntry spec.sources.length]).onRound 0 fun x =>
        { x with permits := .ofCount spec.limit.toNat }).staff 0 { spec with supplier := 0 }
          since).suspend 0 .gathering := by
    have hsome : spec.sources.isEmpty = false := by simpa using hsources
    unfold beginRound
    rw [hround]
    dsimp only
    rw [hspec]
    dsimp only
    rw [hsome, if_neg (by simp), if_neg (by omega), hsince]
    rfl
  have htick : (ofCollection now capacity store web supplier spec).tick =
      (({ (ofCollection now capacity store web supplier spec) with
        ready := [.move 1 false] } : Intake).onActivity 0 fun x =>
          { x with stopping := false }).beginRound 0 0 := rfl
  rw [htick, hbegin _ rfl rfl, staff_eq]
  simp [collectionBegun, ofCollection, addSupplier, startCollecting, add, call, start,
    Activity.ofRole, Round.new, suspend, onActivity, onRound, log, RoundSpec.jobFor]

end

section

variable {now : DateTime} {capacity : Nat} {store : Snapshots} {web : List (String × Response)}
  {supplier : Supplier} {spec : RoundSpec} {since : Instant} {i : Nat}

theorem filterMap_calledOff?_range (n b : Nat) :
    ((List.range n).map fun j => Call.move (2 + j) false).filterMap (Call.calledOff? b) =
      if 2 ≤ b ∧ b < 2 + n then [false] else [] := by
  induction n with
  | zero =>
      rw [if_neg (by omega)]
      rfl
  | succ n ih =>
      rw [List.range_succ, List.map_append, List.filterMap_append, ih]
      simp only [List.map_cons, List.map_nil, List.filterMap_cons, List.filterMap_nil,
        Call.calledOff?]
      by_cases hlast : 2 + n = b
      · subst hlast
        simp
      · rw [if_neg hlast]
        rw [List.append_nil]
        exact if_congr (by omega) rfl rfl

theorem station_collectionBegun (b : Nat) :
    (collectionBegun now capacity store web supplier spec since).station b =
      ⟨(collectionBegun now capacity store web supplier spec since).post? b,
        (if b = 1 then [false] else []) ++
          if 2 ≤ b ∧ b < 2 + spec.sources.length then [false] else [], 0, []⟩ := by
  have hcalls : (collectionBegun now capacity store web supplier spec since).calls b =
      (if b = 1 then [false] else []) ++
        if 2 ≤ b ∧ b < 2 + spec.sources.length then [false] else [] := by
    rw [← filterMap_calledOff?_range, calls, collectionBegun, List.filterMap_cons, Call.calledOff?]
    by_cases hb : b = 1
    · subst hb
      rfl
    · rw [if_neg (Ne.symm hb), if_neg hb]
      rfl
  rw [station, hcalls]
  rfl

theorem post?_collectionBegun (hi : i < spec.sources.length) :
    (collectionBegun now capacity store web supplier spec since).post? (2 + i) =
      some ⟨.member 0 i, .fresh, false, false⟩ := by
  rw [post?_eq, activity?, collectionBegun, Nat.add_comm]
  simp [hi, Activity.ofRole, Activity.post]

theorem affairs_collectionBegun (now : DateTime) (capacity : Nat) (store : Snapshots)
    (web : List (String × Response)) (supplier : Supplier) (spec : RoundSpec) (since : Instant) :
    (collectionBegun now capacity store web supplier spec since).affairs =
      (start now (.ofCapacity capacity) store web).affairs := by
  have hphase : (collectionBegun now capacity store web supplier spec since).view.phase =
      fun _ => .idle := by
    funext a
    refine View.phase_eq_idle_iff.mpr fun c hc => ?_
    obtain ⟨x, hx, rfl⟩ := Option.map_eq_some_iff.mp hc
    have hmem := List.mem_of_getElem? hx
    simp only [collectionBegun, List.mem_cons, List.mem_map] at hmem
    rcases hmem with rfl | rfl | ⟨j, -, rfl⟩ <;> rfl
  rw [affairs_start, affairs, View.affairs, hphase]
  rfl

end

end Intake

/-! ## The beginning -/

/-- Every fetch of a round gives entries or fails as fetches of feeds do, and none is kept back. -/
structure Supplier.Delivers (supplier : Supplier) (web : List (String × Response))
    (spec : RoundSpec) (since : Instant) : Prop where
  ofFeeds : ∀ source ∈ spec.sources, ∀ fault,
    supplier.answerFor web (spec.jobFor since source) = .error fault →
      ∃ f, fault = .failure f ∧ f.kind.isFeed = true
  prompt : ∀ answers, supplier = .prepared answers → ∀ source ∈ spec.sources,
    ((answers.lookup source).getD ⟨.error (.missingKey source), false⟩).gated = false

/-- Every fetch of a round comes to an end of its own: it is neither called off nor kept back. -/
structure Supplier.Responds (supplier : Supplier) (web : List (String × Response))
    (spec : RoundSpec) (since : Instant) : Prop where
  uncancelled : ∀ source ∈ spec.sources, ∀ fault,
    supplier.answerFor web (spec.jobFor since source) = .error fault →
      fault.isCancellation = false
  prompt : ∀ answers, supplier = .prepared answers → ∀ source ∈ spec.sources,
    ((answers.lookup source).getD ⟨.error (.missingKey source), false⟩).gated = false

theorem Supplier.Delivers.responds {supplier : Supplier} {web : List (String × Response)}
    {spec : RoundSpec} {since : Instant} (delivers : supplier.Delivers web spec since) :
    supplier.Responds web spec since where
  uncancelled := by
    intro source hsource fault hfault
    obtain ⟨f, rfl, -⟩ := delivers.ofFeeds source hsource fault hfault
    rfl
  prompt := delivers.prompt

section

variable {now : DateTime} {capacity : Nat} {store : Snapshots} {web : List (String × Response)}
  {supplier : Supplier} {spec : RoundSpec} {since : Instant}

/-- The job of a member of a collecting round that is the only one. -/
def RoundSpec.jobOf (spec : RoundSpec) (since : Instant) (m : ActivityId) : JobSpec :=
  spec.jobFor since (spec.sources.getD (m - 2) "")

theorem RoundSpec.jobOf_add_two {i : Nat} {source : String} (hi : spec.sources[i]? = some source) :
    spec.jobOf since (2 + i) = spec.jobFor since source := by
  rw [jobOf, Nat.add_sub_cancel_left, List.getD_eq_getElem?_getD, hi, Option.getD_some]

/-- The owner comes first, then the taker, then the members. -/
def RoundSpec.crew (spec : RoundSpec) (since : Instant)
    (responds : supplier.Responds web spec since) : Crew where
  owner := 0
  taker := 1
  members := (List.range spec.sources.length).map (2 + ·)
  spec := spec.jobOf since
  answer := fun m => supplier.answerFor web (spec.jobOf since m)
  apart := by
    have hmembers : ((List.range spec.sources.length).map (2 + ·)).Nodup :=
      List.Nodup.map (fun i j h => Nat.add_left_cancel h) List.nodup_range
    have hlater (m : ActivityId) (hm : m ∈ (List.range spec.sources.length).map (2 + ·)) :
        2 ≤ m := by
      obtain ⟨i, -, rfl⟩ := List.mem_map.mp hm
      exact Nat.le_add_right 2 i
    refine List.nodup_cons.mpr ⟨fun hmem => ?_, List.nodup_cons.mpr ⟨fun hmem => ?_, hmembers⟩⟩
    · rcases List.mem_cons.mp hmem with heq | hmem
      · cases heq
      · exact absurd (hlater 0 hmem) (by decide)
    · exact absurd (hlater 1 hmem) (by decide)
  uncancelled := by
    intro m hm fault hfault
    obtain ⟨i, hi, rfl⟩ := List.mem_map.mp hm
    have hsource := List.getElem?_eq_getElem (List.mem_range.mp hi)
    rw [RoundSpec.jobOf_add_two hsource] at hfault
    exact responds.uncancelled _ (List.getElem_mem _) fault hfault

theorem RoundSpec.crew_apart (responds : supplier.Responds web spec since)
    (hnodup : spec.sources.Nodup) {m : ActivityId} (hm : m ∈ (spec.crew since responds).members) :
    ∀ b ∈ (spec.crew since responds).members, ((spec.crew since responds).spec b).source =
      ((spec.crew since responds).spec m).source → b = m := by
  intro b hb hsame
  obtain ⟨i, hi, rfl⟩ := List.mem_map.mp hb
  obtain ⟨j, hj, rfl⟩ := List.mem_map.mp hm
  have hi' := List.mem_range.mp hi
  have hj' := List.mem_range.mp hj
  rw [show (spec.crew since responds).spec (2 + i) = _ from
      RoundSpec.jobOf_add_two (List.getElem?_eq_getElem hi'),
    show (spec.crew since responds).spec (2 + j) = _ from
      RoundSpec.jobOf_add_two (List.getElem?_eq_getElem hj')] at hsame
  rw [(List.Nodup.getElem_inj_iff hnodup).mp hsame]

end

namespace Hall

def begun (c : Crew) (limit : Nat) : Hall where
  spot := fun m => if m ∈ c.members then ⟨.start, .due⟩ else ⟨.gone, .free⟩
  owner := .gathering
  taker := .due
  records := 0
  permits := limit
  notes := 0
  ended := 0

section

variable {c : Crew} {limit : Nat} {m : ActivityId}

theorem begun_spot (hm : m ∈ c.members) : (begun c limit).spot m = ⟨.start, .due⟩ := if_pos hm

theorem finished_begun (c : Crew) (limit : Nat) : (begun c limit).finished c = 0 := by
  have hzero : ∀ n ∈ c.members.map fun m => ((begun c limit).spot m).isGone.toNat, n = 0 := by
    intro n hn
    obtain ⟨m, hm, rfl⟩ := List.mem_map.mp hn
    rw [begun_spot hm]
    rfl
  unfold finished
  generalize c.members.map _ = counts at hzero
  induction counts with
  | nil => rfl
  | cons n rest ih =>
      rw [total_cons, hzero n List.mem_cons_self,
        ih fun n hn => hzero n (List.mem_cons_of_mem _ hn)]

theorem sane_begun (hmembers : c.members ≠ []) (hlimit : 0 < limit) : (begun c limit).Sane c := by
  have hspot (m : ActivityId) : ((begun c limit).spot m).pace ≠ .waits := by
    by_cases hm : m ∈ c.members <;> simp [begun, hm]
  refine ⟨fun b hb => if_neg hb, fun b hb => absurd hb (hspot b), fun b k hb => ?_, ?_, ?_, ?_,
    ⟨by simp [begun], by simp [begun], by simp [begun], by simp [begun]⟩⟩
  · exact absurd (by rw [hb]) (hspot b)
  · rintro (hnone | ⟨b, hb⟩)
    · exact absurd hnone (Nat.pos_iff_ne_zero.mp hlimit)
    · exact absurd (by rw [hb]) (hspot b)
  · rw [finished_begun]
    rfl
  · exact iff_of_true rfl (List.length_pos_iff.mpr hmembers)

theorem not_moves_begun (m : ActivityId) : ¬(begun c limit).Moves c m := by
  rintro (hm | ⟨-, ho⟩ | ⟨-, ht⟩)
  · by_cases hmem : m ∈ c.members <;> simp [begun, hmem, Spot.moves, Spot.isGone] at hm
  · cases ho
  · cases ht

end

section

variable {now : DateTime} {capacity : Nat} {store : Snapshots} {web : List (String × Response)}
  {supplier : Supplier} {spec : RoundSpec} {since : Instant} {m : ActivityId}

theorem stands_begun (responds : supplier.Responds web spec since) (b : Nat) :
    (begun (spec.crew since responds) spec.limit.toNat).Stands (spec.crew since responds) b
      ((collectionBegun now capacity store web supplier spec since).station b) := by
  rw [station_collectionBegun]
  match b with
  | 0 => exact .owner rfl .gathering
  | 1 => exact .taker rfl (.due (.inl rfl))
  | i + 2 =>
      rw [Nat.add_comm i 2]
      by_cases hi : i < spec.sources.length
      · have hmem : 2 + i ∈ (spec.crew since responds).members :=
          List.mem_map.mpr ⟨i, List.mem_range.mpr hi, rfl⟩
        have stands := Stands.member (h := begun (spec.crew since responds) spec.limit.toNat) hmem
          (by rw [begun_spot hmem]; exact .start i)
        rw [begun_spot hmem] at stands
        rw [post?_collectionBegun hi, if_neg (by omega), if_pos (by omega)]
        exact stands
      · have hnone : (collectionBegun now capacity store web supplier spec since).post? (2 + i) =
            none := by
          rw [post?_eq, activity?, collectionBegun, Nat.add_comm]
          simp [hi]
        rw [hnone, if_neg (by omega), if_neg (by omega)]
        refine .nobody fun hmem => ?_
        simp only [RoundSpec.crew, List.mem_cons, List.mem_map, List.mem_range] at hmem
        rcases hmem with h | h | ⟨j, hj, h⟩
        · exact absurd (show (2 + i : Nat) = 0 from h) (by omega)
        · exact absurd (show (2 + i : Nat) = 1 from h) (by omega)
        · exact hi (Nat.add_left_cancel h ▸ hj)

theorem cast_begun (responds : supplier.Responds web spec since)
    (hm : m ∈ (spec.crew since responds).members) :
    (collectionBegun now capacity store web supplier spec since).Cast (spec.crew since responds)
      m := by
  obtain ⟨i, hi, rfl⟩ := List.mem_map.mp hm
  have hi' := List.mem_range.mp hi
  have hsource := List.getElem?_eq_getElem hi'
  have hjob : (spec.crew since responds).spec (2 + i) = spec.jobFor since spec.sources[i] :=
    RoundSpec.jobOf_add_two hsource
  refine ⟨i, 0, supplier, ?_, ?_, rfl, rfl, fun answers hprepared => ?_⟩
  · rw [role?_eq, post?_collectionBegun hi', Option.map_some]
  · rw [hjob, jobSpecs, collectionBegun, List.getElem?_map, List.getElem?_map, hsource]
    rfl
  · rw [hjob]
    exact responds.prompt answers hprepared _ (List.getElem_mem hi')

/-- **A collecting round that has just begun shows a hall where all are due.** -/
theorem shows_begun (hsources : spec.sources ≠ []) (hcapacity : 1 ≤ capacity)
    (hlimit : 1 ≤ spec.limit) (hsince : thresholdOf spec.since = .ok since)
    (responds : supplier.Responds web spec since) :
    (begun (spec.crew since responds) spec.limit.toNat).Shows (spec.crew since responds)
      (ofCollection now capacity store web supplier spec).tick := by
  rw [tick_ofCollection hsources hlimit hsince]
  exact {
    stands := stands_begun responds
    stocks := ⟨hcapacity, rfl, rfl, rfl, rfl⟩
    counts := ⟨_, rfl, rfl, rfl, rfl, rfl, rfl⟩
    notes := fun r => by
      show List.count (Call.note r) (.move 1 false :: (List.range spec.sources.length).map fun j =>
        Call.move (2 + j) false) = if r = 0 then 0 else 0
      rw [ite_self, List.count_eq_zero]
      simp
    cast := fun m hm => cast_begun responds hm
    results := fun m hm hbegun => by
      rw [begun_spot hm] at hbegun
      cases hbegun
    toll := rfl }

theorem collects_begun (now : DateTime) (store : Snapshots) (hsources : spec.sources ≠ [])
    (hcapacity : 1 ≤ capacity) (hlimit : 1 ≤ spec.limit)
    (hsince : thresholdOf spec.since = .ok since)
    (responds : supplier.Responds web spec since) :
    Collects (spec.crew since responds) (begun (spec.crew since responds) spec.limit.toNat)
      (ofCollection now capacity store web supplier spec).tick where
  shows := shows_begun hsources hcapacity hlimit hsince responds
  sane := by
    refine sane_begun ?_ (by omega)
    simpa [RoundSpec.crew] using hsources
  still := not_moves_begun
  tidy := (Reaches.course_of_start ((reaches_ofCollection now capacity store web supplier
    spec).trans (ticks_reaches 1 _))).tidy fun _ => by simp
  filed := fun h => by cases h

end

end Hall

/-! ## Patience -/

theorem le_foldl_max {n : Nat} {ns : List Nat} (hn : n ∈ ns) (k : Nat) : n ≤ ns.foldl max k := by
  rw [List.foldl_max]
  exact Nat.le_trans (List.le_max?_getD_of_mem hn) (Nat.le_max_right k _)

theorem total_map_le {α : Type} {f : α → Nat} {k : Nat} {xs : List α} (h : ∀ x ∈ xs, f x ≤ k) :
    total (xs.map f) ≤ xs.length * k := by
  induction xs with
  | nil => exact Nat.zero_le _
  | cons x rest ih =>
      have hx := h x List.mem_cons_self
      have hrest := ih fun y hy => h y (List.mem_cons_of_mem _ hy)
      rw [List.map_cons, total_cons, List.length_cons, Nat.succ_mul]
      omega

theorem Supplier.length_le_mostEntries {supplier : Supplier} {web : List (String × Response)}
    {job : JobSpec} {entries : List Entry} (h : supplier.answerFor web job = .ok entries) :
    entries.length ≤ max supplier.mostEntries
      ((web.map fun r => r.2.document.entries.length).foldl max 0) := by
  cases supplier with
  | prepared answers =>
      rw [answerFor] at h
      refine Nat.le_trans ?_ (Nat.le_max_left _ _)
      cases hlookup : answers.lookup job.source with
      | none =>
          rw [hlookup] at h
          cases h
      | some answer =>
          rw [hlookup] at h
          obtain ⟨before, after, heq, -⟩ := List.lookup_eq_some_iff.mp hlookup
          have hmem : (job.source, answer) ∈ answers := by simp [heq]
          refine le_foldl_max (List.mem_map.mpr ⟨_, hmem, ?_⟩) 0
          have hanswer : answer.outcome = .ok entries := h
          dsimp only
          rw [hanswer]
  | network fetcher =>
      refine Nat.le_trans ?_ (Nat.le_max_right _ _)
      rw [answerFor] at h
      split at h
      · cases h
      · rename_i url _
        unfold JobSpec.conclusion at h
        cases hresult : (Fetcher.conclude (.text job.source) url job.timeoutMs 0
            ((web.lookup url).getD .unreachable)).result with
        | error fault =>
            rw [hresult] at h
            cases h
        | ok values =>
            rw [hresult] at h
            cases h
            rw [(Fetcher.conclude_eq_ok_iff.mp hresult).all, List.length_map]
            cases hlookup : web.lookup url with
            | none => exact Nat.zero_le _
            | some response =>
                obtain ⟨before, after, heq, -⟩ := List.lookup_eq_some_iff.mp hlookup
                have hmem : (url, response) ∈ web := by
                  rw [heq]
                  simp
                exact le_foldl_max
                  (List.mem_map_of_mem (f := fun r => r.2.document.entries.length) hmem) 0

section

variable {now : DateTime} {capacity : Nat} {store : Snapshots} {web : List (String × Response)}
  {supplier : Supplier} {spec : RoundSpec} {since : Instant}

theorem toil_lt_patience (responds : supplier.Responds web spec since) (now : DateTime)
    (capacity : Nat) (store : Snapshots) (limit : Nat) :
    (Hall.begun (spec.crew since responds) limit).toil (spec.crew since responds) + 1 <
      (ofCollection now capacity store web supplier spec).patience := by
  obtain ⟨most, hmost⟩ : ∃ most,
      most = (ofCollection now capacity store web supplier spec).mostEntries := ⟨_, rfl⟩
  have hpatience : (ofCollection now capacity store web supplier spec).patience =
      26 + 8 * spec.sources.length + 8 * most + 4 * (spec.sources.length * most) := by
    have hvalue : (ofCollection now capacity store web supplier spec).patience =
        2 + 8 * (2 + (spec.sources.length + 0) + 1) +
          4 * (most + (most + 0) + (spec.sources.length + 0) * most + 0) := by
      rw [hmost]
      rfl
    rw [hvalue]
    simp only [Nat.add_zero]
    omega
  have hload (m : ActivityId) (hm : m ∈ (spec.crew since responds).members) :
      ((Hall.begun (spec.crew since responds) limit).spot m).toil
        ((spec.crew since responds).load m) ≤ 2 * most + 2 := by
    have hone : (spec.crew since responds).load m + 1 ≤ most := by
      have hmany : (ofCollection now capacity store web supplier spec).mostEntries =
          max (max 0 supplier.mostEntries)
            ((web.map fun r => r.2.document.entries.length).foldl max 0) + 1 := rfl
      rw [hmost, hmany, Nat.zero_max, Crew.load]
      refine Nat.succ_le_succ ?_
      cases hanswer : (spec.crew since responds).answer m with
      | error fault => exact Nat.zero_le _
      | ok entries => exact Supplier.length_le_mostEntries hanswer
    rw [Hall.begun_spot hm]
    show 2 * (spec.crew since responds).load m + 3 + 1 ≤ _
    omega
  have htotal := total_map_le hload
  have hcount : (spec.crew since responds).members.length = spec.sources.length := by
    simp [RoundSpec.crew]
  have htoil : (Hall.begun (spec.crew since responds) limit).toil (spec.crew since responds) ≤
      spec.sources.length * (2 * most + 2) + 4 := by
    rw [hcount] at htotal
    exact Nat.add_le_add_right htotal 4
  have hproduct : spec.sources.length * (2 * most + 2) =
      2 * (spec.sources.length * most) + 2 * spec.sources.length := by
    rw [Nat.mul_add, Nat.mul_left_comm, Nat.mul_comm spec.sources.length 2]
  rw [hpatience]
  omega

end

/-! ## What is collected -/

/-- What has come of the run of a member: the records collected of its source are those that it
admitted of the entries that its fetch gave, in their order. -/
structure Intake.Collected (w : Intake) (store : Snapshots) (job : JobSpec)
    (answer : Except Fault (List Entry)) (m : ActivityId) (result : RunResult) : Prop where
  /-- The run has ended, and the entries up to where it stopped were judged one by one. -/
  inFeedOrder : ∃ (outcome : RunOutcome) (ending : Ending), w.outcome? m = some outcome ∧
    ending.Explains w.history m job result outcome ∧
    ((answer.toOption.getD []).take (ending.met (answer.toOption.getD []).length)).map
      (·.toRecord job.source) = (w.history.judgementsBy m).map fun judgement => .ok judgement.1
  /-- Every record was judged against the store of its moment. -/
  judged : ∀ (later past : History) (record : Record) (verdict : Verdict),
    w.history = later ++ .did m job (.judged record verdict) :: past →
      verdict = job.judge (past.replay store) record
  records : w.taken.filter (·.source = job.source) = Trail.admitted (w.history.judgementsBy m)
  published : result.published = (w.taken.filter (·.source = job.source)).length

namespace Hall

section

variable {c : Crew} {h : Hall} {w : Intake} {m : ActivityId} {now : DateTime}
  {queue : RecordQueue} {store : Snapshots} {web : List (String × Response)}

theorem Shows.mem_of_specOf? (shows : h.Shows c w) {b : ActivityId} {job : JobSpec}
    (hb : w.specOf? b = some job) : b ∈ c.members ∧ job = c.spec b := by
  have hmem : b ∈ c.members := by
    have stands := shows.stands b
    have hstation : (w.station b).post = w.post? b := rfl
    rw [specOf?_eq_of_role] at hb
    generalize w.station b = s at stands hstation
    cases stands with
    | member hm => exact hm
    | owner ho =>
        rw [ho, shows.role_owner] at hb
        cases hb
    | taker ht =>
        rw [ht, shows.role_taker] at hb
        cases hb
    | nobody =>
        rw [role?_eq, ← hstation] at hb
        cases hb
  rw [shows.specOf? hmem] at hb
  exact ⟨hmem, (Option.some.inj hb).symm⟩

theorem Collects.collected (collects : Collects c h w) (hready : w.ready = [])
    (reach : Reaches (start now queue store web) w) (hqueue : queue.records = [])
    (course : c.plan.Course (start now queue store web).affairs w.affairs)
    (apart : ∀ b ∈ c.members, (c.spec b).source = (c.spec m).source → b = m)
    (hm : m ∈ c.members) {result : RunResult} (hended : w.EndedWith m result) :
    w.Collected store (c.spec m) (c.answer m) m result := by
  obtain ⟨job, outcome, hphase⟩ := hended
  obtain ⟨hs, hr, houtcome⟩ := of_phase_ended w m hphase
  have shows := collects.shows
  obtain ⟨-, rfl⟩ := shows.mem_of_specOf? hs
  have hspec := shows.specOf? hm
  have sound := Reaches.sound reach
  have explained := sound.explained m
  rw [hphase] at explained
  obtain ⟨ending, explains, -⟩ := explained.exists_ending
  have hthorough : Thorough (some (c.answer m)) w.history m := by
    rw [← Crew.plan_answer? hm]
    rw [affairs_start] at course
    exact course.thorough (sound_start store queue.records) rfl rfl hphase
  obtain ⟨answer, hanswer, hentries⟩ := hthorough.answered
  cases hanswer
  have handling := explains.handling
  have hrecords : w.taken.filter (·.source = (c.spec m).source) = w.history.recordsPutBy m := by
    have hmine := records_of_source (a := m) sound collects.tidy hspec
      fun b other hb hother hsame => by
        obtain ⟨hmem, rfl⟩ := shows.mem_of_specOf? hother
        exact hb (apart b hmem hsame)
    have htaken := (collects.gone hready).2.2.2.1
    rw [hqueue, htaken, List.append_nil, List.length_nil, List.drop_zero, ← shows.toll] at hmine
    exact hmine
  refine ⟨⟨outcome, ending, houtcome, explains, ?_⟩,
    fun _ _ _ _ hsplit => sound.judged hsplit, hrecords.trans hthorough.put, ?_⟩
  · rw [← hentries]
    exact handling.judged
  rw [hrecords]
  exact handling.published

theorem Collects.everyone (collects : Collects c h w) (hready : w.ready = []) :
    ∀ x ∈ w.activities, ∃ outcome, x.stage = .finished outcome := by
  obtain ⟨hmembers, hdone, htaker, -⟩ := collects.gone hready
  intro x hx
  obtain ⟨b, hb⟩ := List.getElem?_of_mem hx
  have houtcome : (w.outcome? b).isSome = true := by
    have stands := collects.shows.stands b
    have hpost : (w.station b).post = some x.post := by
      rw [station, post?_eq, show w.activity? b = some x from hb, Option.map_some]
    generalize w.station b = s at stands hpost
    cases stands with
    | member hm =>
        obtain ⟨outcome, ho, -⟩ := hmembers b hm
        rw [ho]
        rfl
    | owner ho =>
        rw [ho, hdone]
        rfl
    | taker ht =>
        rw [ht, htaker]
        rfl
    | nobody => cases hpost
  obtain ⟨outcome, ho⟩ := Option.isSome_iff_exists.mp houtcome
  rw [outcome?, show w.activity? b = some x from hb, Option.bind_some] at ho
  split at ho
  · rename_i hstage
    exact ⟨_, hstage⟩
  · cases ho

theorem Collects.source_of_taken (collects : Collects c h w) (hready : w.ready = [])
    (reach : Reaches (start now queue store web) w) (hqueue : queue.records = []) {record : Record}
    (hmem : record ∈ w.taken) : ∃ m ∈ c.members, record.source = (c.spec m).source := by
  have sound := Reaches.sound reach
  have hput : record ∈ w.history.recordsPut := by
    have hconserved : queue.records ++ w.history.recordsPut =
      w.history.recordsTaken ++ w.queue.records := sound.conserved
    rw [hqueue, (collects.gone hready).2.2.2.1, List.nil_append, List.append_nil] at hconserved
    rw [hconserved, ← collects.shows.toll]
    exact hmem
  rw [← History.map_puts] at hput
  obtain ⟨⟨b, record⟩, hby, rfl⟩ := List.mem_map.mp hput
  obtain ⟨job, hjob, hsource⟩ := source_of_recordPutBy sound collects.tidy
    (History.mem_recordsPutBy_of_mem_puts hby)
  obtain ⟨hm, rfl⟩ := collects.shows.mem_of_specOf? hjob
  exact ⟨b, hm, hsource⟩

end

end Hall

theorem length_eq_total_filter {sources : List String} (hnodup : sources.Nodup)
    (records : List Record) (h : ∀ record ∈ records, record.source ∈ sources) :
    records.length = total (sources.map fun source =>
      (records.filter (·.source = source)).length) := by
  induction sources generalizing records with
  | nil =>
      have hnone : records = [] :=
        List.eq_nil_iff_forall_not_mem.mpr fun record hmem => by cases h record hmem
      rw [hnone]
      rfl
  | cons source rest ih =>
      obtain ⟨hsource, hnodup⟩ := List.nodup_cons.mp hnodup
      have hothers := ih hnodup (records.filter (·.source ≠ source)) fun record hmem => by
        obtain ⟨hmem, hne⟩ := List.mem_filter.mp hmem
        exact (List.mem_cons.mp (h record hmem)).resolve_left (of_decide_eq_true hne)
      have hsame : (rest.map fun s =>
          ((records.filter (·.source ≠ source)).filter (·.source = s)).length) =
            rest.map fun s => (records.filter (·.source = s)).length := by
        refine List.map_congr_left fun s hs => ?_
        rw [List.filter_filter]
        congr 1
        refine List.filter_congr fun record _ => ?_
        have hne : s ≠ source := ne_of_mem_of_not_mem hs hsource
        by_cases hrecord : record.source = s <;> simp [hrecord, hne]
      rw [List.map_cons, total_cons, ← hsame, ← hothers]
      have hsplit := List.length_eq_length_filter_add (l := records) fun record =>
        decide (record.source = source)
      rw [hsplit]
      simp only [ne_eq, decide_not]

/-- A collecting round has come through: all have ended, the one that takes records last, nothing is
left in the queue and nobody waits for it, and every source has its result and its records. -/
structure Intake.CollectsAll (w : Intake) (store : Snapshots) (jobs : List JobSpec)
    (answer : JobSpec → Except Fault (List Entry)) : Prop where
  settled : w.ready = []
  done : w.roundOutcome? 0 = some .done
  everyone : ∀ x ∈ w.activities, ∃ outcome, x.stage = .finished outcome
  taker : w.outcome? 1 = some .cancelled
  taken : w.queue.records = []
  finished : w.queue.unfinished = 0
  putters : w.queue.putters = []
  getters : w.queue.getters = []
  each : ∃ round, w.rounds = [round] ∧ round.results.length = jobs.length ∧
    w.taken.length = total (round.results.map (·.published)) ∧
    ∀ (i : Nat) (job : JobSpec), jobs[i]? = some job → ∃ m result, round.members[i]? = some m ∧
      round.results[i]? = some result ∧ w.Collected store job (answer job) m result

section

variable {now : DateTime} {capacity : Nat} {store : Snapshots} {web : List (String × Response)}
  {supplier : Supplier} {spec : RoundSpec} {since : Instant}
  {responds : supplier.Responds web spec since} {h : Hall} {w : Intake}

/-- A collecting round over the sources of `spec` has come to rest, and went as planned. -/
structure Hall.Rested (now : DateTime) (capacity : Nat) (store : Snapshots)
    (responds : supplier.Responds web spec since) (h : Hall) (w : Intake) : Prop where
  collects : Collects (spec.crew since responds) h w
  ready : w.ready = []
  reach : Reaches (start now (.ofCapacity capacity) store web) w
  course : (spec.crew since responds).plan.Course
    (start now (.ofCapacity capacity) store web).affairs w.affairs

namespace Hall

theorem rested_settle (hsources : spec.sources ≠ []) (hcapacity : 1 ≤ capacity)
    (hlimit : 1 ≤ spec.limit) (hsince : thresholdOf spec.since = .ok since)
    (responds : supplier.Responds web spec since) :
    ∃ h, Rested now capacity store responds h
      (ofCollection now capacity store web supplier spec).settle := by
  have htoil := toil_lt_patience responds now capacity store spec.limit.toNat
  obtain ⟨k, hk⟩ : ∃ k, (ofCollection now capacity store web supplier spec).patience = k + 1 :=
    Nat.exists_eq_succ_of_ne_zero (by omega)
  have begins := collects_begun now store hsources hcapacity hlimit hsince responds
  obtain ⟨h, collects, course, hrests⟩ := begins.ticks k
  rw [tick_ofCollection hsources hlimit hsince, affairs_collectionBegun] at course
  refine ⟨h, ?_⟩
  rw [settle, hk, ticks]
  exact {
    collects := collects
    ready := hrests (by omega)
    reach := (reaches_ofCollection now capacity store web supplier spec).trans
      (ticks_reaches (k + 1) _)
    course := by
      rw [tick_ofCollection hsources hlimit hsince]
      exact course }

theorem Rested.collected (rested : Rested now capacity store responds h w)
    (hnodup : spec.sources.Nodup) {results : List RunResult}
    (hended : List.Forall₂ w.EndedWith (spec.crew since responds).members results) {i : Nat}
    (hi : i < spec.sources.length) : ∃ result, results[i]? = some result ∧
      w.Collected store (spec.jobFor since spec.sources[i])
        (supplier.answerFor web (spec.jobFor since spec.sources[i])) (2 + i) result := by
  have hi' : i < results.length := by
    rw [← hended.length_eq]
    simpa [RoundSpec.crew] using hi
  have hm : 2 + i ∈ (spec.crew since responds).members :=
    List.mem_map.mpr ⟨i, List.mem_range.mpr hi, rfl⟩
  have hjob : (spec.crew since responds).spec (2 + i) = spec.jobFor since spec.sources[i] :=
    RoundSpec.jobOf_add_two (List.getElem?_eq_getElem hi)
  have hends : w.EndedWith (2 + i) results[i] := by
    have hget := hended.get (i := i) (by simpa [RoundSpec.crew] using hi) hi'
    simpa [RoundSpec.crew] using hget
  have collected := rested.collects.collected rested.ready rested.reach rfl rested.course
    (RoundSpec.crew_apart responds hnodup hm) hm hends
  have hanswer : (spec.crew since responds).answer (2 + i) =
      supplier.answerFor web (spec.jobFor since spec.sources[i]) := by
    show supplier.answerFor web ((spec.crew since responds).spec (2 + i)) = _
    rw [hjob]
  rw [hjob, hanswer] at collected
  exact ⟨_, List.getElem?_eq_getElem hi', collected⟩

theorem Rested.length_taken (rested : Rested now capacity store responds h w)
    (hnodup : spec.sources.Nodup) {results : List RunResult}
    (hended : List.Forall₂ w.EndedWith (spec.crew since responds).members results) :
    w.taken.length = total (results.map (·.published)) := by
  have hlength : results.length = spec.sources.length := by
    rw [← hended.length_eq]
    simp [RoundSpec.crew]
  have hsource (record : Record) (hmem : record ∈ w.taken) : record.source ∈ spec.sources := by
    obtain ⟨m, hm, hsource⟩ :=
      rested.collects.source_of_taken rested.ready rested.reach rfl hmem
    obtain ⟨i, hi, rfl⟩ := List.mem_map.mp hm
    rw [hsource]
    have hlt := List.mem_range.mp hi
    rw [show (spec.crew since responds).spec (2 + i) = _ from
      RoundSpec.jobOf_add_two (List.getElem?_eq_getElem hlt)]
    exact List.getElem_mem hlt
  rw [length_eq_total_filter hnodup _ hsource]
  congr 1
  refine List.ext_getElem (by simp [hlength]) fun i hi hi' => ?_
  rw [List.getElem_map, List.getElem_map]
  obtain ⟨result, hresult, collected⟩ := rested.collected hnodup hended (by simpa using hi)
  obtain ⟨_, rfl⟩ := List.getElem?_eq_some_iff.mp hresult
  exact collected.published.symm

theorem Rested.taken_eq (rested : Rested now capacity store responds h w) :
    w.taken = w.history.recordsPut := by
  have hconserved : [] ++ w.history.recordsPut = w.history.recordsTaken ++ w.queue.records :=
    (Reaches.sound rested.reach).conserved
  rw [(rested.collects.gone rested.ready).2.2.2.1, List.nil_append, List.append_nil] at hconserved
  rw [hconserved]
  exact rested.collects.shows.toll

theorem Rested.collectsAll (rested : Rested now capacity store responds h w)
    (hnodup : spec.sources.Nodup) :
    w.CollectsAll store (spec.sources.map (spec.jobFor since)) (supplier.answerFor web) := by
  obtain ⟨-, hdone, htaker, hrecords, hfinished, hputters, hgetters, results, hreported, hended⟩ :=
    rested.collects.gone rested.ready
  obtain ⟨round, hround, counts⟩ := rested.collects.shows.counts
  have hresults : round.results = results := by
    rw [reported, hround] at hreported
    exact List.singleton_inj.mp hreported
  have hmembers : round.members = (List.range spec.sources.length).map (2 + ·) := counts.members
  subst hresults
  refine ⟨rested.ready, ?_, rested.collects.everyone rested.ready, htaker, hrecords, hfinished,
    hputters, hgetters, round, hround, ?_, rested.length_taken hnodup hended, fun i job hi => ?_⟩
  · rw [roundOutcome?, hround]
    show w.outcome? round.owner = _
    rw [counts.owner]
    exact hdone
  · rw [← hended.length_eq]
    simp [RoundSpec.crew]
  · rw [List.getElem?_map, Option.map_eq_some_iff] at hi
    obtain ⟨source, hsource, rfl⟩ := hi
    obtain ⟨hlt, rfl⟩ := List.getElem?_eq_some_iff.mp hsource
    obtain ⟨result, hresult, collected⟩ := rested.collected hnodup hended hlt
    refine ⟨2 + i, result, ?_, hresult, collected⟩
    rw [hmembers]
    simp [hlt]

end Hall

end

namespace Intake

variable {now : DateTime} {capacity : Nat} {store : Snapshots} {web : List (String × Response)}
  {supplier : Supplier} {spec : RoundSpec} {since : Instant}

/-- Two feeds have more entries than there is room for, and one cannot be had. -/
def narrowFeeds : Supplier :=
  .prepared [("a", ⟨.ok [.bare "x", .bare "y"], false⟩),
    ("b", ⟨.error (.failure (.of .network "down")), false⟩),
    ("c", ⟨.ok [.bare "z", .bare "x", .bare "y"], false⟩)]

def narrowlyCollected : Intake :=
  (ofCollection Instant.first.toDateTime 1 .unbounded [] narrowFeeds
    { RoundSpec.ofSources ["a", "b", "c"] with limit := 1 }).settle

end Intake

end FeedIntake
