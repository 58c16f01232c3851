import FeedIntake.Proofs.Stations

/-! # What shows of a hall

An intake shows a hall if everyone is at the station that goes with its spot, and the queue and the
round count what the hall counts. Each operation of the intake is matched by a change of the hall.
-/

namespace FeedIntake

open Intake

/-- Where a member of the round is posted. Whoever moves may be posted anywhere. -/
inductive Spot.Fits (c : Crew) (m : ActivityId) : Spot → Post → Prop where
  | start (j : JobId) : Fits c m ⟨.start, .due⟩ ⟨.member 0 j, .fresh, false, false⟩
  | stands (j : JobId) : Fits c m ⟨.line, .waits⟩ ⟨.member 0 j, .inLine, true, false⟩
  | served (j : JobId) : Fits c m ⟨.line, .due⟩ ⟨.member 0 j, .inLine, false, false⟩
  | afar (j : JobId) {url : String} {response : Response}
      (promise : (c.spec m).conclusion url response = c.answer m) :
      Fits c m ⟨.afar, .due⟩ ⟨.member 0 j, .onNetwork url response, false, false⟩
  | queues (j : JobId) (record : Record) {rest : List Entry} {n : Nat} (hn : rest.length = n) :
      Fits c m ⟨.queue n, .waits⟩ ⟨.member 0 j, .atQueue record rest, true, false⟩
  | woken (j : JobId) (record : Record) {rest : List Entry} {n : Nat} (hn : rest.length = n) :
      Fits c m ⟨.queue n, .due⟩ ⟨.member 0 j, .atQueue record rest, false, false⟩
  | moves (j : JobId) (stage : Stage) {e : Errand} (he : e ≠ .gone) :
      Fits c m ⟨e, .free⟩ ⟨.member 0 j, stage, false, false⟩
  | gone (j : JobId) {outcome : RunOutcome} (h : outcome ≠ .cancelled) :
      Fits c m ⟨.gone, .free⟩ ⟨.member 0 j, .finished outcome, false, false⟩

inductive OwnerSpot.Fits (c : Crew) : OwnerSpot → Post → Prop where
  | gathering : Fits c .gathering ⟨.collector 0 c.taker, .gathering, true, false⟩
  | called : Fits c .called ⟨.collector 0 c.taker, .gathering, false, false⟩
  | counting (stage : Stage) : Fits c .counting ⟨.collector 0 c.taker, stage, false, false⟩
  | joining : Fits c .joining ⟨.collector 0 c.taker, .joining, true, false⟩
  | roused : Fits c .roused ⟨.collector 0 c.taker, .joining, false, false⟩
  | ending (stage : Stage) : Fits c .ending ⟨.collector 0 c.taker, stage, false, false⟩
  | gone : Fits c .gone ⟨.collector 0 c.taker, .finished .done, false, false⟩

/-- Where the taker is posted, and what is due for it. One that is sent away may have been due
already, and then it remembers to stop. -/
inductive TakerSpot.Fits : TakerSpot → Post → List Bool → Prop where
  | waits : Fits .waits ⟨.taker, .awaitingRecord, true, false⟩ []
  | due {stage : Stage} (h : stage = .fresh ∨ stage = .awaitingRecord) :
      Fits .due ⟨.taker, stage, false, false⟩ [false]
  | taking (stage : Stage) : Fits .taking ⟨.taker, stage, false, false⟩ []
  | dismissed {stage : Stage} {calledOff stopping : Bool}
      (h : stage = .fresh ∨ stage = .awaitingRecord) (stops : (calledOff || stopping) = true) :
      Fits .dismissed ⟨.taker, stage, false, stopping⟩ [calledOff]
  | leaving (stage : Stage) : Fits .leaving ⟨.taker, stage, false, false⟩ []
  | gone : Fits .gone ⟨.taker, .finished .cancelled, false, false⟩ []

namespace Hall

/-- The station of somebody. -/
inductive Stands (c : Crew) (h : Hall) (b : ActivityId) : Station → Prop where
  | member {p : Post} (hb : b ∈ c.members) (fits : (h.spot b).Fits c b p) :
      Stands c h b ⟨some p, (h.spot b).pace.calls, (h.spot b).putting, (h.spot b).places⟩
  | owner {p : Post} (hb : b = c.owner) (fits : h.owner.Fits c p) :
      Stands c h b ⟨some p, h.owner.calls, 0, []⟩
  | taker {p : Post} {calls : List Bool} (hb : b = c.taker) (fits : h.taker.Fits p calls) :
      Stands c h b ⟨some p, calls, 0, []⟩
  | nobody (hb : b ∉ c.owner :: c.taker :: c.members) : Stands c h b ⟨none, [], 0, []⟩

/-- What shows of the queue. -/
structure Stocks (c : Crew) (taker : TakerSpot) (count : Nat) (q : RecordQueue) : Prop where
  capacity : 0 < q.capacity
  refusal : q.refusal = none
  records : q.records.length = count
  unfinished : q.unfinished = count
  getters : q.getters = if taker = .waits then [c.taker] else []

structure Counts (c : Crew) (noted permits : Nat) (x : Round) : Prop where
  owner : x.owner = c.owner
  members : x.members = c.members
  stopping : x.stopping = false
  ended : x.ended = noted
  free : x.permits.free = permits

/-- Somebody is at the same spot in both halls. -/
structure Agrees (c : Crew) (h h' : Hall) (b : ActivityId) : Prop where
  spot : h'.spot b = h.spot b
  owner : b = c.owner → h'.owner = h.owner
  taker : b = c.taker → h'.taker = h.taker

theorem Stands.congr {c : Crew} {h h' : Hall} {b : ActivityId} {s : Station}
    (stands : h.Stands c b s) (agrees : Agrees c h h' b) : h'.Stands c b s := by
  cases stands with
  | member hb fits =>
      rw [← agrees.spot] at fits ⊢
      exact .member hb fits
  | owner hb fits =>
      rw [← agrees.owner hb] at fits ⊢
      exact .owner hb fits
  | taker hb fits =>
      rw [← agrees.taker hb] at fits
      exact .taker hb fits
  | nobody hb => exact .nobody hb

end Hall

/-- What a member is there for: the job that it runs, and where its entries come from. Nothing keeps
the answer back. -/
structure Intake.Cast (w : Intake) (c : Crew) (m : ActivityId) : Prop where
  casts : ∃ j id supplier, w.role? m = some (.member 0 j) ∧
    w.jobSpecs[j]? = some (c.spec m, id) ∧ w.suppliers[id]? = some supplier ∧
    supplier.answerFor w.web (c.spec m) = c.answer m ∧
    ∀ answers, supplier = .prepared answers →
      ((answers.lookup (c.spec m).source).getD
        ⟨.error (.missingKey (c.spec m).source), false⟩).gated = false

def Errand.hasBegun : Errand → Bool
  | start | line | ask => false
  | _ => true

structure Hall.Shows (c : Crew) (h : Hall) (w : Intake) : Prop where
  stands : ∀ b, h.Stands c b (w.station b)
  stocks : Stocks c h.taker h.records w.queue
  counts : ∃ x, w.rounds = [x] ∧ Counts c h.ended h.permits x
  notes : ∀ r, w.ready.count (.note r) = if r = 0 then h.notes else 0
  cast : ∀ m ∈ c.members, w.Cast c m
  results : ∀ m ∈ c.members, (h.spot m).errand.hasBegun = true → (w.result? m).isSome = true
  toll : w.taken = w.history.recordsTaken

namespace Hall

section

variable {c : Crew} {h h' : Hall} {w w' : Intake} {a b m : ActivityId}

theorem Cast.carry (cast : w.Cast c m) (carries : Carries w w') : w'.Cast c m := by
  obtain ⟨j, id, supplier, hrole, hjob, hsupplier, hanswer, hprompt⟩ := cast
  refine ⟨j, id, supplier, ?_, ?_, ?_, ?_, hprompt⟩
  · rw [carries.roles, hrole]
  · rw [carries.jobs, hjob]
  · rw [carries.suppliers, hsupplier]
  · rw [carries.web, hanswer]

/-- Something happens to one, and the others stay where they are. -/
theorem Shows.turn (shows : h.Shows c w) (carries : Carries w w')
    (hothers : ∀ b, b ≠ a → h'.Stands c b (w'.station b)) (hself : h'.Stands c a (w'.station a))
    (stocks : Stocks c h'.taker h'.records w'.queue)
    (counts : ∃ x, w'.rounds = [x] ∧ Counts c h'.ended h'.permits x)
    (notes : ∀ r, w'.ready.count (.note r) = if r = 0 then h'.notes else 0)
    (hbegun : ∀ m ∈ c.members, (h'.spot m).errand.hasBegun = true →
      (h.spot m).errand.hasBegun = true ∨ (w'.result? m).isSome = true) : h'.Shows c w' where
  stands := fun b => by
    by_cases hb : b = a
    · exact hb ▸ hself
    · exact hothers b hb
  stocks := stocks
  counts := counts
  notes := notes
  cast := fun m hm => Cast.carry (shows.cast m hm) carries
  results := fun m hm hb =>
    (hbegun m hm hb).elim (fun hold => carries.results m (shows.results m hm hold)) id
  toll := carries.toll shows.toll

/-! ## Who is where -/

theorem Shows.member (shows : h.Shows c w) (hm : m ∈ c.members) : ∃ p, (h.spot m).Fits c m p ∧
    w.station m =
      ⟨some p, (h.spot m).pace.calls, (h.spot m).putting, (h.spot m).places⟩ := by
  have hstands := shows.stands m
  have hapart := c.apart
  generalize w.station m = s at hstands
  cases hstands with
  | member hb fits => exact ⟨_, fits, rfl⟩
  | owner hb fits =>
      subst hb
      simp [hm] at hapart
  | taker hb fits =>
      subst hb
      simp [hm] at hapart
  | nobody hb => simp [hm] at hb

theorem Shows.owner (shows : h.Shows c w) : ∃ p, h.owner.Fits c p ∧
    w.station c.owner = ⟨some p, h.owner.calls, 0, []⟩ := by
  have hstands := shows.stands c.owner
  have hapart := c.apart
  generalize w.station c.owner = s at hstands
  cases hstands with
  | member hb fits => simp [hb] at hapart
  | owner hb fits => exact ⟨_, fits, rfl⟩
  | taker hb fits => simp [hb] at hapart
  | nobody hb => simp at hb

theorem Shows.taker (shows : h.Shows c w) : ∃ p calls, h.taker.Fits p calls ∧
    w.station c.taker = ⟨some p, calls, 0, []⟩ := by
  have hstands := shows.stands c.taker
  have hapart := c.apart
  generalize w.station c.taker = s at hstands
  cases hstands with
  | member hb fits => simp [hb] at hapart
  | owner hb fits => simp [← hb] at hapart
  | taker hb fits => exact ⟨_, _, fits, rfl⟩
  | nobody hb => simp at hb

theorem Shows.moving (shows : h.Shows c w) (hm : m ∈ c.members) {e : Errand} (he : e ≠ .gone)
    (hspot : h.spot m = ⟨e, .free⟩) : ∃ j stage, w.station m =
      ⟨some ⟨.member 0 j, stage, false, false⟩, [], 0, (Spot.mk e .free).places⟩ := by
  obtain ⟨p, fits, hstation⟩ := shows.member hm
  rw [hspot] at fits hstation
  cases fits with
  | moves j stage =>
      refine ⟨j, stage, hstation.trans ?_⟩
      cases e <;> rfl
  | gone j => exact absurd rfl he

theorem stands_set {h : Hall} (hm : m ∈ c.members) {s : Spot} {p : Post} (fits : s.Fits c m p) :
    (h.set m s).Stands c m ⟨some p, s.pace.calls, s.putting, s.places⟩ := by
  have stands := Stands.member (h := h.set m s) hm (by rw [set_spot_self]; exact fits)
  rw [set_spot_self] at stands
  exact stands

theorem Shows.memberTo (shows : h.Shows c w) (carries : Carries w w') {u : Hall} {s : Spot}
    (hspot : u.spot = h.spot) (howner : u.owner = h.owner) (htaker : u.taker = h.taker)
    (hothers : ∀ b, b ≠ m → w'.station b = w.station b)
    (hself : (u.set m s).Stands c m (w'.station m))
    (stocks : Stocks c u.taker u.records w'.queue)
    (counts : ∃ x, w'.rounds = [x] ∧ Counts c u.ended u.permits x)
    (notes : ∀ r, w'.ready.count (.note r) = if r = 0 then u.notes else 0)
    (hbegun : s.errand.hasBegun = true →
      (h.spot m).errand.hasBegun = true ∨ (w'.result? m).isSome = true) :
    (u.set m s).Shows c w' := by
  have hstill (b : ActivityId) (hb : b ≠ m) : (u.set m s).spot b = h.spot b := by
    rw [set_spot_of_ne u hb, hspot]
  refine shows.turn carries (a := m) (fun b hb => ?_) hself stocks counts notes
    fun b _ hbegun' => ?_
  · rw [hothers b hb]
    exact (shows.stands b).congr ⟨hstill b hb, fun _ => howner, fun _ => htaker⟩
  · by_cases hb : b = m
    · subst hb
      rw [set_spot_self] at hbegun'
      exact hbegun hbegun'
    · rw [hstill b hb] at hbegun'
      exact .inl hbegun'

theorem places_station {x : Round} (hx : w.rounds = [x]) (b : ActivityId) :
    (w.station b).places = x.permits.placesOf b := by
  rw [station, hx, List.flatMap_singleton]

/-! ## What does not show -/

theorem Shows.aside (shows : h.Shows c w) (hscene : w'.scene = w.scene)
    (carries : Carries w w') : h.Shows c w' where
  stands := fun b => by
    rw [station_of_scene w hscene]
    exact shows.stands b
  stocks := by
    have stocks := shows.stocks
    have hqueue := congrArg Scene.queue hscene
    have hrefuses : w'.queue.refuses = w.queue.refuses := congrArg Scene.refuses hscene
    have hcapacity : w'.queue.capacity = w.queue.capacity :=
      (congrArg RecordQueue.capacity hqueue :)
    have hrecords : w'.queue.records = w.queue.records := (congrArg RecordQueue.records hqueue :)
    have hunfinished : w'.queue.unfinished = w.queue.unfinished :=
      (congrArg RecordQueue.unfinished hqueue :)
    have hgetters : w'.queue.getters = w.queue.getters := (congrArg RecordQueue.getters hqueue :)
    rw [(RecordQueue.refuses_eq_none_iff _).mpr stocks.refusal] at hrefuses
    exact {
      capacity := hcapacity ▸ stocks.capacity
      refusal := (RecordQueue.refuses_eq_none_iff _).mp hrefuses
      records := hrecords ▸ stocks.records
      unfinished := hunfinished ▸ stocks.unfinished
      getters := hgetters ▸ stocks.getters }
  counts := by
    rw [rounds_of_scene hscene]
    exact shows.counts
  notes := by
    rw [ready_of_scene hscene]
    exact shows.notes
  cast := fun m hm => Cast.carry (shows.cast m hm) carries
  results := fun m hm hb => carries.results m (shows.results m hm hb)
  toll := carries.toll shows.toll

theorem Shows.turnTo (shows : h.Shows c w) (hm : m ∈ c.members) {e e' : Errand}
    (hspot : h.spot m = ⟨e, .free⟩) (he : e ≠ .gone) (he' : e' ≠ .gone)
    (hplaces : (Spot.mk e .free).places = (Spot.mk e' .free).places)
    (hr : e'.hasBegun = true → (w.result? m).isSome = true) : (h.set m ⟨e', .free⟩).Shows c w := by
  obtain ⟨j, stage, hstation⟩ := shows.moving hm he hspot
  refine shows.memberTo (.refl w) rfl rfl rfl (fun _ _ => rfl) ?_ shows.stocks shows.counts
    shows.notes fun hbegun => .inr (hr hbegun)
  rw [hstation, hplaces]
  have stands := stands_set (h := h) hm (.moves (c := c) (m := m) j stage he')
  cases e' <;> exact stands

/-- Something that nobody's place depends on is changed about the round. -/
theorem Shows.recount (shows : h.Shows c w) {x : Round} (hx : w.rounds = [x]) {f : Round → Round}
    {k : Nat} (hplaces : ∀ b, (f x).permits.placesOf b = x.permits.placesOf b)
    (counts : Counts c h.ended k (f x)) :
    ({ h with permits := k } : Hall).Shows c (w.onRound 0 f) where
  stands := fun b => by
    have hsame : (w.onRound 0 f).station b = w.station b := by
      rw [station_onRound hx, hplaces, ← places_station hx]
    rw [hsame]
    exact (shows.stands b).congr ⟨rfl, fun _ => rfl, fun _ => rfl⟩
  stocks := shows.stocks
  counts := ⟨f x, by simp [Intake.onRound, hx], counts⟩
  notes := shows.notes
  cast := fun m hm => Cast.carry (shows.cast m hm) (.onRound w 0 f)
  results := shows.results
  toll := shows.toll

/-! ## Permits -/

/-- A member that comes when no permit is free, or others stand in line, stands in line. -/
theorem Shows.join (shows : h.Shows c w) (hm : m ∈ c.members) (hspot : h.spot m = ⟨.start, .free⟩) :
    (h.set m ⟨.line, .waits⟩).Shows c
      ((w.onRound 0 fun x => { x with permits := x.permits.join m }).suspend m .inLine) := by
  obtain ⟨j, stage, hstation⟩ := shows.moving hm (by simp) hspot
  obtain ⟨x, hx, counts⟩ := shows.counts
  have hjoined := station_onRound hx fun x => { x with permits := x.permits.join m }
  have carries : Carries w
      ((w.onRound 0 fun x => { x with permits := x.permits.join m }).suspend m .inLine) :=
    (Carries.onRound w 0 _).trans
      (.onActivity _ m (by exact fun _ => rfl) (by exact fun _ => rfl))
  refine shows.memberTo carries rfl rfl rfl (fun b hb => ?_) ?_ shows.stocks ?_ shows.notes
    fun hbegun => by cases hbegun
  · rw [suspend, station_onActivity_of_ne _ hb, hjoined]
    dsimp only
    rw [Permits.placesOf_join_of_ne _ hb, ← places_station hx]
  · have hplaces : x.permits.placesOf m = [] := by rw [← places_station hx, hstation]; rfl
    rw [suspend, station_onActivity_self _ m
      (g := fun p => { p with stage := .inLine, waiting := true }) (by exact fun _ => rfl), hjoined,
      hstation]
    dsimp only
    rw [Permits.placesOf_join_self, hplaces]
    exact stands_set hm (.stands j)
  · refine ⟨{ x with permits := x.permits.join m },
      by simp [suspend, onActivity, Intake.onRound, hx], counts.owner, counts.members,
      counts.stopping, counts.ended, counts.free⟩

theorem Shows.take (shows : h.Shows c w) (hm : m ∈ c.members)
    (hspot : h.spot m = ⟨.start, .free⟩) :
    ({ h with permits := h.permits - 1 }.set m ⟨.ask, .free⟩ : Hall).Shows c
      (w.onRound 0 fun x => { x with permits := x.permits.take }) := by
  obtain ⟨x, hx, counts⟩ := shows.counts
  have taken : ({ h with permits := h.permits - 1 } : Hall).Shows c
      (w.onRound 0 fun x => { x with permits := x.permits.take }) := by
    refine shows.recount hx (fun _ => rfl) ⟨counts.owner, counts.members, counts.stopping,
      counts.ended, ?_⟩
    rw [← counts.free]
    rfl
  exact taken.turnTo hm hspot (by simp) (by simp) rfl (by simp [Errand.hasBegun])

theorem Shows.line_of_mem_places (shows : h.Shows c w) {given : Bool}
    (hb : given ∈ (w.station b).places) : (h.spot b).errand = .line := by
  have hstands := shows.stands b
  generalize w.station b = s at hstands hb
  cases hstands with
  | member hmem fits =>
      dsimp only at hb
      generalize h.spot b = s at hb
      obtain ⟨errand, pace⟩ := s
      cases errand <;> first | rfl | cases hb
  | _ => cases hb

theorem Shows.of_mem_places (shows : h.Shows c w) (hb : false ∈ (w.station b).places) :
    b ∈ c.members ∧ h.spot b = ⟨.line, .waits⟩ := by
  have hline := shows.line_of_mem_places hb
  have hstands := shows.stands b
  generalize w.station b = s at hstands hb
  cases hstands with
  | member hmem fits =>
      refine ⟨hmem, ?_⟩
      dsimp only at hb
      generalize h.spot b = s at hb hline
      obtain ⟨errand, pace⟩ := s
      cases hline
      cases pace <;> first | rfl | simp [Spot.places] at hb
  | _ => cases hb

theorem Shows.placesOf_eq (shows : h.Shows c w) (hm : m ∈ c.members) {x : Round}
    (hx : w.rounds = [x]) : x.permits.placesOf m = (h.spot m).places := by
  obtain ⟨p, -, hstation⟩ := shows.member hm
  rw [← places_station hx, hstation]

/-- If somebody stands in line, a permit is given to one of them, and otherwise nothing happens. -/
theorem Shows.grant (shows : h.Shows c w) (within : h.Within c) {x : Round} (hx : w.rounds = [x]) :
    (∃ b ∈ c.members, h.spot b = ⟨.line, .waits⟩ ∧
      ({ h with permits := h.permits - 1 }.set b ⟨.line, .due⟩ : Hall).Shows c
        (w.withPermits 0 x.permits.grant)) ∨
    (∀ b, h.spot b ≠ ⟨.line, .waits⟩) ∧ h.Shows c (w.withPermits 0 x.permits.grant) := by
  obtain ⟨x', hx', counts⟩ := shows.counts
  cases List.singleton_inj.mp (hx'.symm.trans hx)
  rcases Permits.grant_cases x.permits with ⟨a, hsome, hfree, hmem, hself, hothers⟩ | ⟨hnone, hno⟩
  · rw [← places_station hx] at hmem
    obtain ⟨ha, hspot⟩ := shows.of_mem_places hmem
    have hplaces : x.permits.placesOf a = [false] := by rw [shows.placesOf_eq ha hx, hspot]; rfl
    refine .inl ⟨a, ha, hspot, ?_⟩
    have hpermits : w.withPermits 0 x.permits.grant =
        (w.onRound 0 fun x' => { x' with permits := x.permits.grant.1 }).wake a := by
      rw [withPermits, hsome]
      rfl
    have carries := Carries.withPermits w 0 x.permits.grant
    rw [hpermits] at carries ⊢
    obtain ⟨p, fits, hstation⟩ := shows.member ha
    rw [hspot] at fits hstation
    refine shows.memberTo carries rfl rfl rfl (fun b hb => ?_) ?_ shows.stocks ?_ (fun r => ?_)
      fun hbegun => by cases hbegun
    · rw [station_wake_of_ne _ hb, station_onRound hx]
      dsimp only
      rw [hothers b hb, ← places_station hx]
    · cases fits with
      | stands j =>
          rw [station_wake_self, station_onRound hx, hstation]
          dsimp only
          rw [hself hplaces]
          exact stands_set ha (.served j)
    · refine ⟨{ x with permits := x.permits.grant.1 }, by simp [Intake.wake, Intake.call,
        onActivity, Intake.onRound, hx], counts.owner, counts.members, counts.stopping,
        counts.ended, ?_⟩
      rw [hfree, counts.free]
    · rw [count_note_wake]
      exact shows.notes r
  · refine .inr ⟨fun b hb => ?_, ?_⟩
    · by_cases hmem : b ∈ c.members
      · refine hno b ?_
        rw [shows.placesOf_eq hmem hx, hb]
        exact List.mem_singleton_self _
      · rw [within b hmem] at hb
        cases hb
    · have hsame : w.withPermits 0 (x.permits, none) = w := by
        have hrounds :
            w.rounds.modify 0 (fun x' => { x' with permits := x.permits }) = w.rounds := by
          rw [hx]
          rfl
        show ({ w with rounds := _ } : Intake) = w
        rw [hrounds]
      rw [hnone, hsame]
      exact shows

theorem onRound_onRound (w : Intake) {x : Round} (hx : w.rounds = [x]) (f g : Round → Round) :
    (w.onRound 0 f).onRound 0 g = w.onRound 0 fun x => g (f x) := by
  simp [Intake.onRound, hx]

/-- A member goes on with the permit that it was given, and another may be served. -/
theorem Shows.moveOn (shows : h.Shows c w) (within : h.Within c) (hm : m ∈ c.members)
    (hspot : h.spot m = ⟨.line, .free⟩) {x : Round} (hx : w.rounds = [x]) :
    ∃ h', Steps c h h' ∧ h'.spot m = ⟨.ask, .free⟩ ∧
      h'.Shows c (w.withPermits 0 (x.permits.moveOn m)) := by
  obtain ⟨j, stage, hstation⟩ := shows.moving hm (by simp) hspot
  obtain ⟨x', hx', counts⟩ := shows.counts
  cases List.singleton_inj.mp (hx'.symm.trans hx)
  have hleft : (h.set m ⟨.ask, .free⟩).Shows c
      (w.onRound 0 fun x' => { x' with permits := x.permits.leave m }) := by
    refine shows.memberTo (.onRound w 0 _) rfl rfl rfl (fun b hb => ?_) ?_ shows.stocks ?_
      shows.notes fun hbegun => by cases hbegun
    · rw [station_onRound hx]
      dsimp only
      rw [Permits.placesOf_leave_of_ne _ hb, ← places_station hx]
    · rw [station_onRound hx, hstation]
      dsimp only
      rw [Permits.placesOf_leave_self]
      exact stands_set hm (.moves j stage (by simp))
    · exact ⟨{ x with permits := x.permits.leave m }, by simp [Intake.onRound, hx],
        counts.owner, counts.members, counts.stopping, counts.ended, counts.free⟩
  have hproceed : Steps c h (h.set m ⟨.ask, .free⟩) := .single (.proceed hm hspot)
  unfold Permits.moveOn
  dsimp only
  split
  · exact ⟨_, hproceed, set_spot_self .., hleft⟩
  · have hrounds : (w.onRound 0 fun x' => { x' with permits := x.permits.leave m }).rounds =
        [{ x with permits := x.permits.leave m }] := by simp [Intake.onRound, hx]
    have hpermits : (w.onRound 0 fun x' => { x' with permits := x.permits.leave m }).withPermits 0
        (x.permits.leave m).grant = w.withPermits 0 (x.permits.leave m).grant := by
      rw [withPermits, onRound_onRound w hx]
      rfl
    have hserved := hleft.grant (within.set hm _) hrounds
    dsimp only at hserved
    rw [hpermits] at hserved
    rcases hserved with ⟨b, hb, hline, served⟩ | ⟨-, same⟩
    · refine ⟨_, hproceed.tail (.grant hb hline), ?_, served⟩
      rw [set_spot_of_ne _ fun heq => ?_]
      · exact set_spot_self ..
      · rw [← heq, set_spot_self] at hline
        cases hline
    · exact ⟨_, hproceed, set_spot_self .., same⟩

/-! ## The end of a member -/

theorem Shows.close (shows : h.Shows c w) (hm : m ∈ c.members) {n : Nat}
    (hspot : h.spot m = ⟨.work n, .free⟩) {outcome : RunOutcome} (houtcome : outcome ≠ .cancelled) :
    ({ h with notes := h.notes + 1 }.set m ⟨.gone, .free⟩ : Hall).Shows c (w.close m outcome) := by
  obtain ⟨j, stage, hstation⟩ := shows.moving hm (by simp) hspot
  have hr : (w.result? m).isSome = true := shows.results m hm (by rw [hspot]; rfl)
  have hclose : w.close m outcome = (w.enter m (.finished outcome)).call (.note 0) := by
    have hpost : w.post? m = some ⟨.member 0 j, stage, false, false⟩ :=
      (congrArg Station.post hstation :)
    have hrole : (w.enter m (.finished outcome)).role? m = some (.member 0 j) := by
      rw [enter, role?_onActivity w m m (by exact fun _ => rfl), role?_eq, hpost, Option.map_some]
    unfold Intake.close
    dsimp only
    rw [hrole]
  have carries : Carries w ((w.enter m (.finished outcome)).call (.note 0)) :=
    (Carries.onActivity w m (by exact fun _ => rfl) (by exact fun _ => rfl)).trans (.call _ _)
  rw [hclose]
  refine shows.memberTo carries rfl rfl rfl (fun b hb => ?_) ?_ shows.stocks shows.counts
    (fun r => ?_) fun _ => .inr (carries.results m hr)
  · rw [station_call_note, enter, station_onActivity_of_ne w hb]
  · rw [station_call_note, enter, station_onActivity_self w m
      (g := fun p => { p with stage := .finished outcome }) (by exact fun _ => rfl), hstation]
    exact stands_set hm (.gone j houtcome)
  · have hnotes := shows.notes r
    show (w.ready ++ [Call.note 0]).count _ = if r = 0 then h.notes + 1 else 0
    rw [List.count_append, hnotes]
    by_cases hr0 : r = 0 <;> simp [hr0, Ne.symm]

theorem Shows.endRun (shows : h.Shows c w) (within : h.Within c) (hm : m ∈ c.members) {n : Nat}
    (hspot : h.spot m = ⟨.work n, .free⟩) {outcome : RunOutcome} (houtcome : outcome ≠ .cancelled) :
    ∃ h', Steps c h h' ∧ h'.spot m = ⟨.gone, .free⟩ ∧ h'.Shows c (w.endRun m outcome) := by
  obtain ⟨x, hx, counts⟩ := shows.counts
  obtain ⟨j, stage, hstation⟩ := shows.moving hm (by simp) hspot
  have hrole : w.role? m = some (.member 0 j) := by
    rw [role?_eq, show w.post? m = some _ from (congrArg Station.post hstation :), Option.map_some]
  have hend : w.endRun m outcome = (w.withPermits 0 x.permits.release).close m outcome := by
    unfold Intake.endRun release
    rw [hrole]
    dsimp only
    rw [hx]
    rfl
  have hfreed : ({ h with permits := h.permits + 1 } : Hall).Shows c
      (w.onRound 0 fun x' =>
        { x' with permits := { x.permits with free := x.permits.free + 1 } }) :=
    shows.recount hx (fun _ => rfl) ⟨counts.owner, counts.members, counts.stopping, counts.ended,
      congrArg (· + 1) counts.free⟩
  have hgranted := hfreed.grant within
    (x := { x with permits := { x.permits with free := x.permits.free + 1 } })
    (by simp [Intake.onRound, hx])
  have hpermits : (w.onRound 0 fun x' =>
      { x' with permits := { x.permits with free := x.permits.free + 1 } }).withPermits 0
        (Permits.grant { x.permits with free := x.permits.free + 1 }) =
      w.withPermits 0 x.permits.release := by
    rw [withPermits, onRound_onRound w hx]
    rfl
  dsimp only at hgranted
  rw [hpermits] at hgranted
  rw [hend]
  rcases hgranted with ⟨b, hb, hline, served⟩ | ⟨hnone, same⟩
  · have hmb : m ≠ b := ne_of_spot_ne hspot hline (by simp)
    have hstill : (({ h with permits := h.permits + 1 - 1 } : Hall).set b ⟨.line, .due⟩).spot m =
        ⟨.work n, .free⟩ := by
      rw [set_spot_of_ne _ hmb]
      exact hspot
    exact ⟨_, .single (.handOn hm hspot hb hline), set_spot_self ..,
      served.close hm hstill houtcome⟩
  · exact ⟨_, .single (.finish hm hspot hnone), set_spot_self .., same.close hm hspot houtcome⟩

end

end Hall

end FeedIntake
