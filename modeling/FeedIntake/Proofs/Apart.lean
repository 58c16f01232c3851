import FeedIntake.Proofs.RoundCourse

/-! # Sources apart

What a round leaves of one of its sources is what a run of the source alone would leave, whatever
becomes of the other sources, however many may run at the same time, whatever room there is in the
queue, and in whatever order they all move.
-/

namespace FeedIntake

open Affairs
open Time (DateTime Instant)

open Intake

/-- What is left of a source when it has been read. -/
structure Yield where
  /-- The result of the run that read it, times aside. -/
  result : RunResult
  /-- Its records that came into the queue, those taken since included. -/
  records : List Record
  snapshot : Option Snapshot

def Upshot.yield (u : Upshot) : Yield := ⟨u.result, u.puts, u.snapshot⟩

/-- A queue that some records have been left in, and that nobody waits for. -/
def RecordQueue.holding (capacity : Nat) (backlog : List Record) : RecordQueue :=
  { ofCapacity capacity with records := backlog, unfinished := backlog.length }

namespace Intake

/-- An intake where a round over one supplier is about to begin. -/
def ofRound (now : DateTime) (queue : RecordQueue) (store : Snapshots)
    (web : List (String × Response)) (supplier : Supplier) (spec : RoundSpec) : Intake :=
  (((start now queue store web).addSupplier supplier).1.startRound { spec with supplier := 0 }).1

/-- An intake where a single run is about to begin, with a queue that is never full. -/
def ofJob (now : DateTime) (store : Snapshots) (web : List (String × Response))
    (supplier : Supplier) (spec : JobSpec) : Intake :=
  ((((start now (.ofCapacity 0) store web).addSupplier supplier).1.addJob spec 0).1.startRun 0).1

def yieldOf (w : Intake) (count : Nat) (source : String) (r : RunResult) : Yield where
  result := r.timeless
  records := ((w.history.recordsTaken ++ w.queue.records).drop count).filter (·.source = source)
  snapshot := w.store.snapshot? source

def leavings (w : Intake) (count : Nat) (r : RoundId) : List (String × Yield) :=
  match w.rounds[r]? with
  | none => []
  | some round => List.zipWith (fun source result => (source, w.yieldOf count source result))
      round.spec.sources round.results

end Intake

/-- What a run of a job may leave of its source if there is nobody else. -/
def JobSpec.LeavesAlone (spec : JobSpec) (now : DateTime) (store : Snapshots)
    (web : List (String × Response)) (supplier : Supplier) (y : Yield) : Prop :=
  ∃ w result, Proceeds (ofJob now store web supplier spec) w ∧ (w.outcome? 0).isSome = true ∧
    w.result? 0 = some result ∧ w.yieldOf 0 spec.source result = y

/-! ## Whose records they are -/

section

variable {store : Snapshots} {backlog : List Record} {w : Intake} {a : ActivityId} {spec : JobSpec}

theorem History.mem_recordsPutBy_of_mem_puts {h : History} {record : Record}
    (hput : (a, record) ∈ h.puts) : record ∈ h.recordsPutBy a := by
  have hby : (a, record) ∈ h.puts.filter (·.1 = a) := by simp [hput]
  rw [History.filter_puts] at hby
  simpa using hby

theorem source_of_recordPutBy (h : w.affairs.Sound store backlog) (htidy : w.affairs.Tidy)
    {record : Record} (hmem : record ∈ w.history.recordsPutBy a) :
    ∃ spec, w.specOf? a = some spec ∧ record.source = spec.source := by
  cases hr : w.result? a with
  | none =>
      rw [History.recordsPutBy, deedsOf_of_no_result h hr] at hmem
      cases hmem
  | some r =>
      obtain ⟨spec, settled, met, hspec, handling⟩ := exists_handling h htidy hr
      have hread := handling.inFeedOrder.subset (List.mem_map_of_mem hmem)
      obtain ⟨e, -, he⟩ := List.mem_map.mp hread
      exact ⟨spec, hspec, Entry.source_of_toRecord he⟩

theorem records_of_source (h : w.affairs.Sound store backlog) (htidy : w.affairs.Tidy)
    (hspec : w.specOf? a = some spec)
    (apart : ∀ b other, b ≠ a → w.specOf? b = some other → other.source ≠ spec.source) :
    ((w.history.recordsTaken ++ w.queue.records).drop backlog.length).filter
      (·.source = spec.source) = w.history.recordsPutBy a := by
  have hconserved : backlog ++ w.history.recordsPut =
      w.history.recordsTaken ++ w.queue.records := h.conserved
  have hmine : (w.history.puts.filter fun put => put.2.source = spec.source) =
      w.history.puts.filter (·.1 = a) := by
    refine List.filter_congr fun ⟨b, record⟩ hput => ?_
    obtain ⟨other, hother, hsource⟩ :=
      source_of_recordPutBy h htidy (History.mem_recordsPutBy_of_mem_puts hput)
    rw [decide_eq_decide, hsource]
    refine ⟨fun heq => ?_, fun heq => ?_⟩
    · by_contra hne
      exact apart b other hne hother heq
    · have hb : b = a := heq
      rw [hb, hspec] at hother
      cases hother
      rfl
  rw [← hconserved, List.drop_left, ← History.map_puts, List.filter_map]
  show ((w.history.puts.filter fun put => put.2.source = spec.source)).map _ = _
  rw [hmine, History.filter_puts, List.map_map]
  exact List.map_id _

/-- What is left of a source by a run that nobody else meddles with is what was to be expected. -/
theorem yieldOf_eq_prospect {store : Snapshots} {answer : Except Fault (List Entry)} {r : RunResult}
    {outcome : RunOutcome} (course : w.plan.Course ⟨store, backlog, [], fun _ => .idle⟩ w.affairs)
    (hcap : store.capacity = none) (hphase : w.affairs.phase a = .ended spec r outcome)
    (hspec : w.specOf? a = some spec) (hanswer : w.answer? a = some answer)
    (apart : ∀ b other, b ≠ a → w.specOf? b = some other → other.source ≠ spec.source) :
    w.yieldOf backlog.length spec.source r = (spec.prospect store answer).yield := by
  have h : w.affairs.Sound store backlog := course.course.sound (sound_start store backlog)
  have htidy : w.affairs.Tidy := course.course.tidy fun _ => by simp
  have hupshot := course.upshot (a := a) hanswer hspec apart hcap
  have hexpected : (spec.prospect store answer).yield = (w.affairs.upshot a spec answer).yield := by
    rw [hupshot]
    rfl
  have hrecords := records_of_source h htidy hspec apart
  rw [hexpected, Affairs.upshot, hphase]
  unfold yieldOf
  rw [hrecords]
  show Yield.mk _ _ _ = Yield.mk _ (_ ++ []) _
  rw [List.append_nil]
  rfl

end

/-! ## Rounds -/

section

variable {now : DateTime} {capacity : Nat} {backlog : List Record} {store : Snapshots}
  {web : List (String × Response)} {supplier : Supplier} {spec : RoundSpec} {w : Intake}

theorem reaches_ofRound (now : DateTime) (queue : RecordQueue) (store : Snapshots)
    (web : List (String × Response)) (supplier : Supplier) (spec : RoundSpec) :
    Reaches (start now queue store web) (ofRound now queue store web supplier spec) :=
  (Relation.ReflTransGen.single (.addSupplier _ supplier)).tail (.startRound _ _)

theorem reaches_of_ofRound {queue : RecordQueue}
    (proceeds : Proceeds (ofRound now queue store web supplier spec) w) :
    Reaches (start now queue store web) w :=
  (reaches_ofRound now queue store web supplier spec).trans (Proceeds.reaches proceeds)

theorem orderly_ofRound (now : DateTime) {queue : RecordQueue} (hputters : queue.putters = [])
    (hgetters : queue.getters = []) (store : Snapshots) (web : List (String × Response))
    (supplier : Supplier) (spec : RoundSpec) :
    Orderly (fun _ => False) (ofRound now queue store web supplier spec) :=
  Reaches.orderly (reaches_ofRound now queue store web supplier spec)
    (orderly_start now store web hputters hgetters)

theorem affairs_ofRound (now : DateTime) (queue : RecordQueue) (store : Snapshots)
    (web : List (String × Response)) (supplier : Supplier) (spec : RoundSpec) :
    (ofRound now queue store web supplier spec).affairs =
      ⟨store, queue.records, [], fun _ => .idle⟩ :=
  (affairs_startRound _ _).trans (affairs_start now queue store web)

theorem tidy_ofRound (now : DateTime) (queue : RecordQueue) (store : Snapshots)
    (web : List (String × Response)) (supplier : Supplier) (spec : RoundSpec) :
    (ofRound now queue store web supplier spec).affairs.Tidy := by
  rw [affairs_ofRound]
  exact fun _ => by simp

theorem goes_ofRound {queue : RecordQueue} (hputters : queue.putters = [])
    (hgetters : queue.getters = [])
    (proceeds : Proceeds (ofRound now queue store web supplier spec) w) :
    Goes (ofRound now queue store web supplier spec) w ∧
      w.Hosts 0 { spec with supplier := 0 } := by
  have uncalled : Uncalled ((start now queue store web).addSupplier supplier).1 :=
    uncalled_of_nobody rfl rfl rfl
  have goes := Proceeds.goes proceeds (uncalled_startRound uncalled _)
    (orderly_ofRound now hputters hgetters store web supplier spec)
    (tidy_ofRound now queue store web supplier spec)
  exact ⟨goes, goes.hosts 0 _ (hosts_startRound uncalled _)⟩

theorem unfolds_ofRound
    (proceeds : Proceeds (ofRound now (.holding capacity backlog) store web supplier spec) w) :
    Unfolds (ofRound now (.holding capacity backlog) store web supplier spec) w ∧
      w.Hosts 0 { spec with supplier := 0 } := by
  have hcalm : Calm ((start now (.holding capacity backlog) store web).addSupplier supplier).1 :=
    calm_of_nobody rfl rfl rfl rfl
  have unfolds := Proceeds.unfolds proceeds (calm_startRound hcalm _)
    (orderly_ofRound now rfl rfl store web supplier spec)
    (tidy_ofRound now _ store web supplier spec)
  exact ⟨unfolds, unfolds.hosts 0 _ (hosts_startRound hcalm.toUncalled _)⟩

theorem roundsOnly_ofRound (now : DateTime) (queue : RecordQueue) (store : Snapshots)
    (web : List (String × Response)) (supplier : Supplier) (spec : RoundSpec) :
    (ofRound now queue store web supplier spec).RoundsOnly :=
  RoundsOnly.startRound (fun b j h => by simp [role?, activity?, addSupplier, start] at h) _

theorem exists_member_of_ofRound
    (proceeds : Proceeds (ofRound now (.holding capacity backlog) store web supplier spec) w)
    {b : ActivityId} {other : JobSpec} (hother : w.specOf? b = some other) :
    ∃ j, w.role? b = some (.member 0 j) := by
  obtain ⟨unfolds, -⟩ := unfolds_ofRound proceeds
  have hrounds := roundsOnly_ofRound now (.holding capacity backlog) store web supplier spec
  obtain ⟨r, j, hmember⟩ := (hrounds.settled unfolds.settled).exists_member hother
  have hlt := unfolds.calm.members b r j hmember
  rw [unfolds.settled.rounds] at hlt
  obtain rfl : r = 0 := Nat.lt_one_iff.mp hlt
  exact ⟨j, hmember⟩

/-- What a round leaves of each of its sources can be said before it begins. -/
theorem leavings_eq (hcap : store.capacity = none) (hnodup : spec.sources.Nodup)
    (proceeds : Proceeds (ofRound now (.holding capacity backlog) store web supplier spec) w)
    (hdone : w.roundOutcome? 0 = some .done) :
    ∃ since, (spec.sources ≠ [] → thresholdOf spec.since = .ok since) ∧
      w.leavings backlog.length 0 = spec.sources.map fun source =>
        (source, ((spec.jobFor since source).prospect store
          (supplier.answerFor web (spec.jobFor since source))).yield) := by
  obtain ⟨unfolds, hosts⟩ := unfolds_ofRound proceeds
  obtain ⟨roster, closed⟩ := hosts.closed hdone
  obtain ⟨hspec, since, hsince, staffed, hresults⟩ := hosts.done closed
  obtain ⟨p, hroster, -⟩ := closed
  obtain ⟨round, hround, rfl⟩ := exists_round hroster
  have hsources : round.roster.spec.sources = spec.sources := by rw [hspec]
  unfold leavings
  rw [hround]
  dsimp only
  rw [show round.spec.sources = _ from hsources]
  refine ⟨since, hsince, List.ext_getElem? fun i => ?_⟩
  rw [List.getElem?_zipWith, List.getElem?_map]
  by_cases hi : i < spec.sources.length
  · have hsource : spec.sources[i]? = some spec.sources[i] := List.getElem?_eq_getElem hi
    obtain ⟨m, result, outcome, hmember, hresult, hphase⟩ := staffed.ended_at hresults hsource
    have hspecOf := staffed.specOf?_at hmember hsource
    have hsupplier : w.suppliers[0]? = some supplier := by
      rw [unfolds.settled.suppliers]
      rfl
    have hanswer := staffed.answer?_at hmember hsource hsupplier
    have hleft := yieldOf_eq_prospect (affairs_ofRound now _ store web supplier spec ▸
      unfolds.course) hcap hphase hspecOf hanswer fun b other hb hother => by
        obtain ⟨j, hrole⟩ := exists_member_of_ofRound proceeds hother
        exact staffed.apart hnodup hmember hsource hb hrole hother
    rw [unfolds.settled.web] at hleft
    rw [hsource, show round.results[i]? = _ from hresult]
    exact congrArg (fun y => some (_, y)) hleft
  · rw [List.getElem?_eq_none (Nat.le_of_not_lt hi)]
    rfl

end

/-! ## Single runs -/

namespace Intake

section

variable {w : Intake} {a : ActivityId} {spec : JobSpec}

/-- Where the queue is never full, a run does not stop before it is through. -/
theorem process_ends (hs : w.view.spec? a = some spec) (hcapacity : w.queue.capacity = 0)
    (hrefusal : w.queue.refusal = none) (r : RunResult) (entries : List Entry) :
    ∃ r' outcome, (w.process a spec r entries).affairs.phase a = .ended spec r' outcome := by
  induction entries generalizing w r with
  | nil => exact ⟨_, _, by rw [process, affairs_complete hs, set_phase_self]⟩
  | cons e rest ih =>
      unfold process
      cases e.toRecord spec.source with
      | error fault =>
          dsimp only
          unfold breakOff
          split
          · exact ⟨_, _, by rw [cancelRun, affairs_endRun hs, set_phase_self]⟩
          · exact ⟨_, _, by rw [affairs_endRun hs, set_phase_self]⟩
      | ok record =>
          dsimp only
          generalize hjudged : (w.log _).tell _ = judged
          have hjs : judged.view.spec? a = some spec := by rw [← hjudged]; exact hs
          have hjc : judged.queue.capacity = 0 := by rw [← hjudged]; exact hcapacity
          have hjr : judged.queue.refusal = none := by rw [← hjudged]; exact hrefusal
          split
          · exact ih hjs hjc hjr _
          · rw [RecordQueue.accept_of_refusal hjr]
            dsimp only
            rw [if_neg (by simp [RecordQueue.isFull, hjc])]
            refine ih ((spec?_put record a).trans hjs) ?_ ((refusal_put judged a spec record).trans
              hjr) _
            show ((judged.withQueue (judged.queue.push record)).queue).capacity = 0
            rw [withQueue, queue_wakeAny]
            exact hjc

theorem deliver_ends (hs : w.view.spec? a = some spec) (hcapacity : w.queue.capacity = 0)
    (hrefusal : w.queue.refusal = none) {r : RunResult} (hr : w.view.result? a = some r)
    (given : Except Fault (List Entry)) :
    ∃ r' outcome, (w.deliver a spec r given).affairs.phase a = .ended spec r' outcome := by
  cases given with
  | error fault => exact ⟨_, _, by rw [affairs_deliver_error hs hr, set_phase_self]⟩
  | ok entries =>
      have hqueue : (w.advance a (r.takeUp entries.length)).queue = w.queue := queue_advance w a _
      refine process_ends ?_ (hqueue ▸ hcapacity) (hqueue ▸ hrefusal) _ entries
      rw [view_tell, view_advance]
      simpa using hs

theorem receive_ends (hs : w.view.spec? a = some spec) (hcapacity : w.queue.capacity = 0)
    (hrefusal : w.queue.refusal = none) {r : RunResult} (hr : w.view.result? a = some r)
    (url : String) (response : Response) :
    ∃ r' outcome, (w.receive a spec r url response).affairs.phase a = .ended spec r' outcome := by
  unfold receive
  exact deliver_ends (w := w.log _) hs hcapacity hrefusal hr _

end

section

variable {now : DateTime} {store : Snapshots} {web : List (String × Response)}
  {supplier : Supplier} {spec : JobSpec} {w : Intake}

theorem affairs_ofJob (now : DateTime) (store : Snapshots) (web : List (String × Response))
    (supplier : Supplier) (spec : JobSpec) :
    (ofJob now store web supplier spec).affairs = ⟨store, [], [], fun _ => .idle⟩ := by
  have hstart := affairs_start now (.ofCapacity 0) store web
  have hjob := affairs_addJob (w := ((start now (.ofCapacity 0) store web).addSupplier supplier).1)
    (fun a => by
      rw [show ((start now (.ofCapacity 0) store web).addSupplier supplier).1.affairs = _ from
        hstart]
      simp) spec 0
  exact (affairs_add _ (.run 0)).trans (hjob.trans hstart)

theorem unfolds_ofJob (proceeds : Proceeds (ofJob now store web supplier spec) w) :
    Unfolds (ofJob now store web supplier spec) w := by
  have hcalm : Calm (((start now (.ofCapacity 0) store web).addSupplier supplier).1.addJob spec
      0).1 := calm_of_nobody rfl rfl rfl rfl
  have horder : Orderly (fun _ => False) (ofJob now store web supplier spec) :=
    (Step.startRun _ 0).orderly ((Step.addJob _ spec 0).orderly
      ((Step.addSupplier _ supplier).orderly (orderly_start now store web rfl rfl)))
  refine Proceeds.unfolds proceeds (calm_startRun hcalm 0) horder ?_
  rw [affairs_ofJob]
  exact fun _ => by simp

/-- A single run can always come to its end: the gate of its source is opened, and it moves as often
as it likes. -/
theorem exists_ended_ofJob (now : DateTime) (store : Snapshots) (web : List (String × Response))
    (supplier : Supplier) (spec : JobSpec) : ∃ w result outcome,
      Proceeds (ofJob now store web supplier spec) w ∧
        w.affairs.phase 0 = .ended spec result outcome := by
  have hopen : Proceeds (ofJob now store web supplier spec)
      ((ofJob now store web supplier spec).openGate spec.source) := .single (.openGate _ _)
  have hfirst := hopen.trans (ticks_proceeds 1 _)
  cases supplier with
  | prepared answers =>
      -- It has begun and fetches its entries, which it gets at once.
      obtain ⟨v, hasks, hs, hr, hqueue, hgates⟩ : ∃ v : Intake,
          ((ofJob now store web (.prepared answers) spec).openGate spec.source).tick =
            v.ask 0 spec (spec.begun now) answers ∧ v.view.spec? 0 = some spec ∧
          v.view.result? 0 = some (spec.begun now) ∧ v.queue = .ofCapacity 0 ∧
          v.openGates = [spec.source] := ⟨_, rfl, rfl, rfl, rfl, rfl⟩
      obtain ⟨result, outcome, hends⟩ := deliver_ends hs (by rw [hqueue]; rfl) (by rw [hqueue]; rfl)
        hr ((answers.lookup spec.source).getD ⟨.error (.missingKey spec.source), false⟩).outcome
      refine ⟨_, result, outcome, hfirst, ?_⟩
      rw [← hends]
      show (tick _).affairs.phase 0 = _
      rw [hasks, ask, if_neg (by simp [hgates])]
  | network fetcher =>
      obtain ⟨v, hrequests, hs, hr, hqueue, hreceives⟩ : ∃ v : Intake,
          ((ofJob now store web (.network fetcher) spec).openGate spec.source).tick =
            v.request 0 spec (spec.begun now) fetcher ∧ v.view.spec? 0 = some spec ∧
          v.view.result? 0 = some (spec.begun now) ∧ v.queue = .ofCapacity 0 ∧
          ∀ url response requests, ∃ u : Intake,
            ((({ v.log [Fetcher.announcement url] with requests } : Intake).enter 0
                (.onNetwork url response)).call (.move 0 false)).tick =
              u.receive 0 spec (spec.begun now) url response ∧ u.view.spec? 0 = some spec ∧
            u.view.result? 0 = some (spec.begun now) ∧ u.queue = .ofCapacity 0 :=
        ⟨_, rfl, rfl, rfl, rfl, fun _ _ _ => ⟨_, rfl, rfl, rfl, rfl⟩⟩
      unfold request at hrequests
      split at hrequests
      · rename_i failure htarget
        obtain ⟨result, outcome, hends⟩ := deliver_ends hs (by rw [hqueue]; rfl)
          (by rw [hqueue]; rfl) hr (.error (.failure failure))
        refine ⟨_, result, outcome, hfirst, ?_⟩
        rw [← hends, ← hrequests]
        rfl
      · rename_i url htarget
        have hreceived := hreceives url ((v.web.lookup url).getD .unreachable)
        obtain ⟨u, hmoves, hs', hr', hqueue'⟩ :=
          hreceived (v.requests ++ [fetcher.request url spec.timeoutMs])
        obtain ⟨result, outcome, hends⟩ := receive_ends hs' (by rw [hqueue']; rfl)
          (by rw [hqueue']; rfl) hr' url ((v.web.lookup url).getD .unreachable)
        refine ⟨_, result, outcome, hfirst.trans (ticks_proceeds 1 _), ?_⟩
        rw [← hends, ← hmoves]
        show (tick (tick _)).affairs.phase 0 = _
        rw [hrequests]

theorem leavesAlone_iff (hcap : store.capacity = none) (y : Yield) :
    spec.LeavesAlone now store web supplier y ↔
      y = (spec.prospect store (supplier.answerFor web spec)).yield := by
  have hleft {w : Intake} {result : RunResult} {outcome : RunOutcome}
      (proceeds : Proceeds (ofJob now store web supplier spec) w)
      (hphase : w.affairs.phase 0 = .ended spec result outcome) :
      w.yieldOf 0 spec.source result =
        (spec.prospect store (supplier.answerFor web spec)).yield := by
    have unfolds := unfolds_ofJob proceeds
    show w.yieldOf ([] : List Record).length _ _ = _
    refine yieldOf_eq_prospect (affairs_ofJob now store web supplier spec ▸
      unfolds.course) hcap
      hphase (unfolds.plan_extends.spec rfl) (unfolds.plan_extends.answer rfl) ?_
    intro b other hb hother
    -- There is no round, and so there is nobody else.
    rw [specOf?_eq_of_role] at hother
    obtain ⟨j, hj, -⟩ := Option.bind_eq_some_iff.mp hother
    obtain ⟨role, hrole, -⟩ := Option.bind_eq_some_iff.mp hj
    rcases unfolds.settled.crew hrole with hold | ⟨r, i, rfl⟩
    · exact absurd (Nat.lt_one_iff.mp (List.getElem?_eq_some_iff.mp
        (Option.map_eq_some_iff.mp hold).choose_spec.1).choose) hb
    · have hlt := unfolds.calm.members b r i hrole
      rw [unfolds.settled.rounds] at hlt
      exact absurd hlt (Nat.not_lt_zero r)
  constructor
  · rintro ⟨w, result, proceeds, hended, hresult, rfl⟩
    obtain ⟨outcome, houtcome⟩ := Option.isSome_iff_exists.mp hended
    exact hleft proceeds (phase_of_outcome? w 0
      ((unfolds_ofJob proceeds).plan_extends.spec rfl) hresult houtcome)
  · rintro rfl
    obtain ⟨w, result, outcome, proceeds, hphase⟩ := exists_ended_ofJob now store web supplier spec
    obtain ⟨-, hresult, houtcome⟩ := of_phase_ended w 0 hphase
    refine ⟨w, result, proceeds, ?_, hresult, hleft proceeds hphase⟩
    rw [houtcome]
    rfl

end

end Intake

/-! ## Sources of a round -/

/-- A perpetual round over entries of any date, with two sources read at the same time. -/
def RoundSpec.ofSources (sources : List String) : RoundSpec :=
  ⟨sources, Instant.first.toDateTime, 1000, true, 0, 2⟩

namespace Intake

/-- What a done round leaves of a source is what a single run may leave of it, and nothing else. It
depends neither on the other sources of the round nor on what comes of them, nor on how many may run
at the same time, nor on the queue. -/
theorem sources_apart {now : DateTime} {capacity : Nat} {backlog : List Record}
    {store : Snapshots} {web : List (String × Response)} {supplier : Supplier} {spec : RoundSpec}
    {w : Intake} (hcap : store.capacity = none) (hnodup : spec.sources.Nodup)
    (proceeds : Proceeds (ofRound now (.holding capacity backlog) store web supplier spec) w)
    (hdone : w.roundOutcome? 0 = some .done) :
    (w.leavings backlog.length 0).map (·.1) = spec.sources ∧
      ∀ source y, (source, y) ∈ w.leavings backlog.length 0 →
        ∃ since, thresholdOf spec.since = .ok since ∧
        (∀ now' web' supplier', supplier'.answerFor web' (spec.jobFor since source) =
            supplier.answerFor web (spec.jobFor since source) →
          ∀ y', (spec.jobFor since source).LeavesAlone now' store web' supplier' y' ↔ y' = y) ∧
        ∀ now' capacity' backlog' web' supplier' (spec' : RoundSpec) w' y', spec'.sources.Nodup →
          thresholdOf spec'.since = .ok since →
          spec'.jobFor since source = spec.jobFor since source →
          supplier'.answerFor web' (spec.jobFor since source) =
            supplier.answerFor web (spec.jobFor since source) →
          Proceeds (ofRound now' (.holding capacity' backlog') store web' supplier' spec') w' →
          w'.roundOutcome? 0 = some .done → (source, y') ∈ w'.leavings backlog'.length 0 →
            y' = y := by
  obtain ⟨since, hsince, hall⟩ := leavings_eq hcap hnodup proceeds hdone
  rw [hall, List.map_map]
  refine ⟨List.map_id _, fun source y hmem => ?_⟩
  obtain ⟨source, hsource, heq⟩ := List.mem_map.mp hmem
  cases heq
  refine ⟨since, hsince (List.ne_nil_of_mem hsource), fun now' web' supplier' hanswer y' => ?_, ?_⟩
  · rw [leavesAlone_iff hcap, hanswer]
  · intro now' capacity' backlog' web' supplier' spec' w' y' hnodup' hsince' hjob hanswer
      proceeds' hdone' hmem'
    obtain ⟨since', hsame, hall'⟩ := leavings_eq hcap hnodup' proceeds' hdone'
    rw [hall'] at hmem'
    obtain ⟨source', hsource', heq⟩ := List.mem_map.mp hmem'
    rw [hsince'] at hsame
    cases hsame (List.ne_nil_of_mem hsource')
    obtain ⟨rfl, rfl⟩ := Prod.mk.inj heq
    rw [hjob, hanswer]

/-- One feed has two entries, and the other cannot be had. -/
def twoFeeds : Supplier :=
  .prepared [("a", ⟨.ok [.bare "x", .bare "y"], false⟩),
    ("b", ⟨.error (.failure (.of .network "down")), false⟩)]

def bothUnread : Intake :=
  ofRound Instant.first.toDateTime (.holding 1 []) .unbounded [] twoFeeds (.ofSources ["a", "b"])

def bothRead : Intake :=
  ticks 6 (((ticks 3 bothUnread).takeOne.map (·.2)).getD (ticks 3 bothUnread))

theorem bothRead_proceeds : Proceeds bothUnread bothRead :=
  ((ticks_proceeds 3 bothUnread).trans (takeOne_proceeds _)).trans (ticks_proceeds 6 _)

theorem sources_apart_bothRead :
    (bothRead.leavings 0 0).map (·.1) = ["a", "b"] ∧
      ∀ source y, (source, y) ∈ bothRead.leavings 0 0 → ∀ y', (JobSpec.ofSource source).LeavesAlone
        Instant.first.toDateTime .unbounded [] twoFeeds y' ↔ y' = y := by
  obtain ⟨hsources, heach⟩ := sources_apart rfl (by decide) bothRead_proceeds rfl
  refine ⟨hsources, fun source y hmem y' => ?_⟩
  obtain ⟨since, hsince, halone, -⟩ := heach source y hmem
  cases (show thresholdOf (RoundSpec.ofSources ["a", "b"]).since = .ok .first from rfl).symm.trans
    hsince
  exact halone _ _ twoFeeds rfl y'

end Intake

end FeedIntake
