import FeedIntake.Proofs.Commits

/-! # How runs end

A run ends in one of a few ways, and each says what it leaves behind. Only a perpetual run that came
through has written to the store, once and all that it met. Any other has left the store as it would
be without the run, even where it had put records before it stopped. The entry at which a run stops
is half done: its identity is met and its record is not in the queue.
-/

namespace FeedIntake

open Affairs

/-- How a run came to its end, where it matters with the index of the entry at which it stopped. -/
inductive Ending where
  | noFeed (f : Failure)
  /-- The fetch ended in a fault that is not about feeds. -/
  | foreign (fault : Fault)
  | cancelledAsking
  | unreadable (index : Nat) (fault : Fault)
  | putFailed (index : Nat) (fault : Fault)
  | cancelledOffering (index : Nat)
  | through
  deriving Nonempty

namespace Ending

def outcome (spec : JobSpec) : Ending → RunOutcome
  | noFeed _ | through => .done
  | foreign fault => .failed fault
  | cancelledAsking | cancelledOffering _ => .cancelled
  | unreadable _ fault | putFailed _ fault => .failed (.failure (spec.processingFailure fault))

def error? : Ending → Option String
  | noFeed f => some f.message
  | cancelledAsking | cancelledOffering _ => some "cancelled"
  | unreadable _ fault | putFailed _ fault => some (JobSpec.processingError fault)
  | foreign _ | through => none

def isCancellation : Ending → Bool
  | cancelledAsking | cancelledOffering _ => true
  | _ => false

def Proper : Ending → Prop
  | noFeed f => f.kind.isFeed = true
  | foreign fault => fault.isCancellation = false ∧ ∀ f, fault = .failure f → f.kind.isFeed = false
  | unreadable _ fault | putFailed _ fault => fault.isCancellation = false
  | _ => True

def stoppedAt? : Ending → Option Nat
  | unreadable index _ | putFailed index _ | cancelledOffering index => some index
  | _ => none

/-- How many of `count` entries a run was through with. -/
def settled (count : Nat) : Ending → Nat
  | through => count
  | unreadable index _ | putFailed index _ | cancelledOffering index => index
  | _ => 0

/-- How many of `count` entries a run had met, the one it stopped at included if it was read. -/
def met (count : Nat) : Ending → Nat
  | putFailed index _ | cancelledOffering index => index + 1
  | ending => ending.settled count

theorem exists_met_eq (ending : Ending) (count : Nat) :
    ∃ pending, ending.met count = ending.settled count + pending := by
  cases ending with
  | putFailed | cancelledOffering => exact ⟨1, rfl⟩
  | _ => exact ⟨0, rfl⟩

end Ending

/-- What a run did about the entries that it had met, and its figures. -/
structure Handling (h : History) (a : ActivityId) (spec : JobSpec) (r : RunResult)
    (settled met : Nat) : Prop where
  fetched : r.fetched = (h.entriesOf a).length
  met_le : met ≤ (h.entriesOf a).length
  /-- The entries met were judged one by one, as the records that they are. -/
  judged : ((h.entriesOf a).take met).map (·.toRecord spec.source) =
    (h.judgementsBy a).map fun judgement => .ok judgement.1
  /-- A record met and not settled was admitted and is not put. -/
  admitted : ∀ record verdict, (record, verdict) ∈ (h.judgementsBy a).drop settled →
    verdict = .admitted
  /-- The records put are the admitted ones among those settled. -/
  put : h.recordsPutBy a = Trail.admitted ((h.judgementsBy a).take settled)
  published : r.published = (h.recordsPutBy a).length
  sum : r.published + r.tooOld + r.repeated = settled
  seen : r.seen = Snapshots.setOf (((h.entriesOf a).take met).map (·.identity spec.source))

/-- What the way in which a run ended says of it. -/
structure Ending.Explains (ending : Ending) (h : History) (a : ActivityId) (spec : JobSpec)
    (r : RunResult) (outcome : RunOutcome) : Prop where
  proper : ending.Proper
  outcome_eq : outcome = ending.outcome spec
  success : r.success = true ↔ ending = .through
  cancelled : r.cancelled = ending.isCancellation
  error : r.error = ending.error?
  committed : r.committed = true ↔ ending = .through ∧ spec.perpetual = true
  stopped : ∀ index, ending.stoppedAt? = some index → index < (h.entriesOf a).length
  handling : Handling h a spec r (ending.settled (h.entriesOf a).length)
    (ending.met (h.entriesOf a).length)

namespace History

variable {h : History} {a : ActivityId} {entries : List Entry} {trail : Trail} {more : List Deed}

theorem judgementsBy_eq (hdeeds : h.deedsOf a = .fetched entries :: trail.deeds ++ more) :
    h.judgementsBy a = trail ++ more.filterMap Deed.judgement? := by
  rw [judgementsBy, hdeeds, List.cons_append, List.filterMap_cons, List.filterMap_append,
    Trail.filterMap_judgement?_deeds]
  rfl

theorem recordsPutBy_eq (hdeeds : h.deedsOf a = .fetched entries :: trail.deeds ++ more) :
    h.recordsPutBy a = trail.admitted ++ more.filterMap Deed.recordPut? := by
  rw [recordsPutBy, hdeeds, List.cons_append, List.filterMap_cons, List.filterMap_append,
    Trail.filterMap_recordPut?_deeds]
  rfl

theorem commitsOf_eq (hdeeds : h.deedsOf a = .fetched entries :: trail.deeds ++ more) :
    h.commitsOf a = more.filterMap Deed.identitiesCommitted? := by
  rw [commitsOf, hdeeds, List.cons_append, List.filterMap_cons, List.filterMap_append,
    Trail.filterMap_identitiesCommitted?_deeds]
  rfl

end History

namespace Handling

variable {h : History} {a : ActivityId} {spec : JobSpec} {r : RunResult}
  {entries rest : List Entry} {trail : Trail} {more : List Deed}

theorem of_asking (hdeeds : h.deedsOf a = []) (now : Time.DateTime) :
    Handling h a spec (spec.begun now) 0 0 := by
  have hentries : h.entriesOf a = [] := by rw [History.entriesOf, hdeeds]; rfl
  have hjudged : h.judgementsBy a = [] := by rw [History.judgementsBy, hdeeds]; rfl
  have hput : h.recordsPutBy a = [] := by rw [History.recordsPutBy, hdeeds]; rfl
  exact {
    fetched := by rw [hentries]; rfl
    met_le := Nat.zero_le _
    judged := by rw [hentries, hjudged]; rfl
    admitted := by simp [hjudged]
    put := by rw [hput, hjudged]; rfl
    published := by rw [hput]; rfl
    sum := rfl
    seen := by rw [hentries]; rfl }

/-- The records `pending` are met and not settled. -/
theorem of_tally (pending : List Record) (hentries : h.entriesOf a = entries)
    (hjudged : h.judgementsBy a = trail ++ pending.map fun record => (record, .admitted))
    (hput : h.recordsPutBy a = trail.admitted)
    (hsplit : ∃ done rest, entries = done ++ rest ∧
      done.map (·.toRecord spec.source) = (trail.records ++ pending).map .ok)
    (tally : Tally r entries.length trail (trail.records ++ pending)) :
    Handling h a spec r trail.length (trail.length + pending.length) := by
  obtain ⟨done, rest, rfl, hread⟩ := hsplit
  have hlength : done.length = trail.length + pending.length := by
    have := congrArg List.length hread
    simpa [Trail.length_records] using this
  have htake : (done ++ rest).take (trail.length + pending.length) = done := by
    rw [← hlength, List.take_left]
  exact {
    fetched := by rw [tally.fetched, hentries]
    met_le := by rw [hentries, List.length_append]; omega
    judged := by
      rw [hentries, htake, hread, hjudged]
      simp [Trail.records]
      rfl
    admitted := by
      intro record verdict hmem
      rw [hjudged, List.drop_left] at hmem
      simp only [List.mem_map, Prod.mk.injEq] at hmem
      obtain ⟨_, _, -, rfl⟩ := hmem
      rfl
    put := by rw [hput, hjudged, List.take_left]
    published := by rw [hput, tally.published, Trail.length_admitted]
    sum := tally.sum
    seen := by rw [hentries, htake, tally.seen, Entry.map_identity hread] }

theorem of_working (progress : Progress spec r entries rest trail)
    (hdeeds : h.deedsOf a = .fetched entries :: trail.deeds ++ more)
    (hmore : more.filterMap Deed.judgement? = []) (hnone : more.filterMap Deed.recordPut? = []) :
    Handling h a spec r trail.length trail.length := by
  obtain ⟨done, hsplit, hread⟩ := progress.split
  refine of_tally [] (History.entriesOf_eq hdeeds) ?_ ?_
    ⟨done, rest, hsplit, by rw [List.append_nil]; exact hread⟩
    (by rw [List.append_nil]; exact progress.tally)
  · rw [History.judgementsBy_eq hdeeds, hmore, List.map_nil]
  · rw [History.recordsPutBy_eq hdeeds, hnone, List.append_nil]

theorem of_offering {e : Entry} {record : Record}
    (progress : Progress spec r entries (e :: rest) trail)
    (he : e.toRecord spec.source = .ok record)
    (hdeeds : h.deedsOf a = .fetched entries :: trail.deeds ++ [.judged record .admitted]) :
    Handling h a spec (r.examine record .admitted) trail.length (trail.length + 1) := by
  obtain ⟨done, hsplit, hread⟩ := progress.split_concat he .admitted
  rw [Trail.records_concat] at hread
  refine of_tally [record] (History.entriesOf_eq hdeeds) ?_ ?_
    ⟨done, rest, hsplit, hread⟩ (progress.tally.offer record)
  · rw [History.judgementsBy_eq hdeeds]
    rfl
  · rw [History.recordsPutBy_eq hdeeds]
    exact List.append_nil _

theorem congr {r' : RunResult} {settled met : Nat} (handling : Handling h a spec r settled met)
    (hfetched : r'.fetched = r.fetched) (hpublished : r'.published = r.published)
    (htooOld : r'.tooOld = r.tooOld) (hrepeated : r'.repeated = r.repeated)
    (hseen : r'.seen = r.seen) : Handling h a spec r' settled met where
  fetched := hfetched.trans handling.fetched
  met_le := handling.met_le
  judged := handling.judged
  admitted := handling.admitted
  put := handling.put
  published := hpublished.trans handling.published
  sum := by rw [hpublished, htooOld, hrepeated, handling.sum]
  seen := hseen.trans handling.seen

theorem fail {settled met : Nat} (handling : Handling h a spec r settled met) (error : String)
    (now : Time.DateTime) : Handling h a spec (r.fail error now) settled met :=
  handling.congr rfl rfl rfl rfl rfl

theorem cancel {settled met : Nat} (handling : Handling h a spec r settled met)
    (now : Time.DateTime) : Handling h a spec (r.cancel now) settled met :=
  handling.congr rfl rfl rfl rfl rfl

end Handling

theorem Progress.length_lt {spec : JobSpec} {r : RunResult} {entries rest : List Entry}
    {trail : Trail} {e : Entry} (progress : Progress spec r entries (e :: rest) trail) :
    trail.length < entries.length := by
  obtain ⟨done, hsplit, hread⟩ := progress.split
  have hlength := congrArg List.length hread
  simp only [List.length_map, Trail.length_records] at hlength
  rw [hsplit, List.length_append, List.length_cons]
  omega

section

variable {h : History} {a : ActivityId} {spec : JobSpec} {r : RunResult} {outcome : RunOutcome}

theorem Ending.Explains.of_stop {ending : Ending} (hne : ending ≠ .through)
    (proper : ending.Proper) (houtcome : outcome = ending.outcome spec)
    (hsuccess : r.success = false) (cancelled : r.cancelled = ending.isCancellation)
    (error : r.error = ending.error?) (hcommitted : r.committed = false)
    (stopped : ∀ index, ending.stoppedAt? = some index → index < (h.entriesOf a).length)
    (handling : Handling h a spec r (ending.settled (h.entriesOf a).length)
      (ending.met (h.entriesOf a).length)) : ending.Explains h a spec r outcome where
  proper := proper
  outcome_eq := houtcome
  success := by simp [hsuccess, hne]
  cancelled := cancelled
  error := error
  committed := by simp [hcommitted, hne]
  stopped := stopped
  handling := handling

/-- A run that stopped did so in some way short of getting through, and had committed nothing. -/
theorem Phase.Stop.exists_ending {p : Phase} (stop : Phase.Stop spec p r outcome)
    (hp : p.Explained (h.deedsOf a)) : ∃ ending : Ending, ending ≠ .through ∧
      ending.Explains h a spec r outcome ∧ h.commitsOf a = [] := by
  generalize hdeeds : h.deedsOf a = deeds at hp
  cases stop with
  | noFeed f hf now =>
      cases hp with
      | asking _ begun =>
          refine ⟨.noFeed f, by simp, .of_stop (by simp) hf rfl (by simp) rfl rfl rfl
            (fun _ h => by cases h) ?_, by rw [History.commitsOf, hdeeds]; rfl⟩
          exact (Handling.of_asking hdeeds begun).congr rfl rfl rfl rfl rfl
  | foreign fault hc hf =>
      cases hp with
      | asking _ begun =>
          refine ⟨.foreign fault, by simp, .of_stop (by simp) ⟨hc, hf⟩ rfl rfl rfl rfl rfl
            (fun _ h => by cases h) ?_, by rw [History.commitsOf, hdeeds]; rfl⟩
          exact Handling.of_asking hdeeds begun
  | cancelledAsking now =>
      cases hp with
      | asking _ begun =>
          refine ⟨.cancelledAsking, by simp, .of_stop (by simp) trivial rfl (by simp) rfl rfl rfl
            (fun _ h => by cases h) ?_, by rw [History.commitsOf, hdeeds]; rfl⟩
          exact (Handling.of_asking hdeeds begun).cancel now
  | unreadable fault he now =>
      cases hp with
      | working progress =>
          rename_i r' _ _ entries trail
          have hmore : h.deedsOf a = .fetched entries :: trail.deeds ++ [] := by
            rw [hdeeds, List.append_nil]
          have hentries := History.entriesOf_eq hdeeds
          refine ⟨.unreadable trail.length fault, by simp, .of_stop (by simp)
            (Entry.toRecord_not_cancellation he) rfl (by simp) progress.tally.cancelled rfl
            progress.tally.committed ?_ ?_, by rw [History.commitsOf_eq hmore]; rfl⟩
          · rintro _ ⟨⟩
            rw [hentries]
            exact progress.length_lt
          · exact (Handling.of_working progress hmore rfl rfl).fail _ now
  | putFailed fault hc now =>
      cases hp with
      | offering progress he =>
          rename_i record rest r' entries trail e
          have hentries := History.entriesOf_eq hdeeds
          have hcancelled := (progress.tally.offer record).cancelled
          have hcommitted := (progress.tally.offer record).committed
          refine ⟨.putFailed trail.length fault, by simp, .of_stop (by simp) hc rfl (by simp)
            hcancelled rfl hcommitted ?_ ?_, by rw [History.commitsOf_eq hdeeds]; rfl⟩
          · rintro _ ⟨⟩
            rw [hentries]
            exact progress.length_lt
          · exact (Handling.of_offering progress he hdeeds).fail _ now
  | cancelledOffering now =>
      cases hp with
      | offering progress he =>
          rename_i record rest r' entries trail e
          have hentries := History.entriesOf_eq hdeeds
          have hcommitted := (progress.tally.offer record).committed
          refine ⟨.cancelledOffering trail.length, by simp, .of_stop (by simp) trivial rfl (by simp)
            rfl rfl hcommitted ?_ ?_, by rw [History.commitsOf_eq hdeeds]; rfl⟩
          · rintro _ ⟨⟩
            rw [hentries]
            exact progress.length_lt
          · exact (Handling.of_offering progress he hdeeds).cancel now

/-- Every end of a run is one of these, and it has committed if it is that of a perpetual run which
came through. -/
theorem Phase.Explained.exists_ending
    (hp : Phase.Explained (.ended spec r outcome) (h.deedsOf a)) : ∃ ending : Ending,
      ending.Explains h a spec r outcome ∧ h.commitsOf a =
        if r.success = true ∧ spec.perpetual = true then
          [Snapshots.setOf ((h.entriesOf a).map (·.identity spec.source))]
        else [] := by
  generalize hdeeds : h.deedsOf a = deeds at hp
  cases hp with
  | stopped hp stop =>
      rw [← hdeeds] at hp
      obtain ⟨ending, hne, explains, hcommits⟩ := stop.exists_ending hp
      refine ⟨ending, explains, ?_⟩
      rw [hcommits, if_neg]
      rintro ⟨hsuccess, -⟩
      exact hne (explains.success.mp hsuccess)
  | through progress now =>
      rename_i r' entries trail
      have hentries : h.entriesOf a = entries := History.entriesOf_eq hdeeds
      have hsuccess := progress.tally.success_conclude spec.perpetual now
      have hlength := progress.length_eq
      have handling := Handling.of_working progress hdeeds (by split <;> rfl) (by split <;> rfl)
      rw [hlength, ← hentries] at handling
      refine ⟨.through, ?_, ?_⟩
      · exact {
          proper := trivial
          outcome_eq := rfl
          success := by simp [hsuccess]
          cancelled := progress.tally.cancelled
          error := progress.tally.error
          committed := by
            simp only [true_and]
            rfl
          stopped := fun _ h => by cases h
          handling := handling.congr rfl rfl rfl rfl rfl }
      · rw [History.commitsOf_eq hdeeds, hentries, progress.seen_eq]
        cases hperp : spec.perpetual with
        | false => simp
        | true =>
            rw [hperp] at hsuccess
            simp [hsuccess, Deed.identitiesCommitted?]

end

/-- What has come of a run that has ended, in an intake that began with this store and queue. -/
structure RunAccount (store : Snapshots) (queued : List Record) (w : Intake) (a : ActivityId)
    (spec : JobSpec) (r : RunResult) (outcome : RunOutcome) : Prop where
  ending : ∃ ending : Ending, ending.Explains w.history a spec r outcome
  /-- A success in perpetual mode is one commit of all identities, anything else none. -/
  commits : w.history.commitsOf a =
    if r.success = true ∧ spec.perpetual = true then
      [Snapshots.setOf ((w.history.entriesOf a).map (·.identity spec.source))]
    else []
  /-- The store is what the commits of all runs make of the one at the beginning. -/
  replayed : w.store = w.history.replay store
  /-- A run that did not commit has left the store as it would be without the run. -/
  unfelt : ¬(r.success = true ∧ spec.perpetual = true) →
    w.store = (w.history.without a).replay store
  /-- Every record was judged against the store of its moment. -/
  judged : ∀ (later past : History) (record : Record) (verdict : Verdict),
    w.history = later ++ .did a spec (.judged record verdict) :: past →
      verdict = spec.judge (past.replay store) record
  /-- The records put, by this run and others, are those taken and those in the queue. -/
  queued : queued ++ w.history.recordsPut = w.history.recordsTaken ++ w.queue.records

namespace Intake

/-- In whatever way a run ends and whatever others do meanwhile, it commits all that it met or
nothing. -/
theorem commit_all_or_nothing {now : Time.DateTime} {queue : RecordQueue} {store : Snapshots}
    {web : List (String × Response)} {w : Intake} (reach : Reaches (start now queue store web) w)
    {a : ActivityId} {spec : JobSpec} {r : RunResult} {outcome : RunOutcome}
    (hs : w.specOf? a = some spec) (hr : w.result? a = some r)
    (ho : w.outcome? a = some outcome) :
    RunAccount store queue.records w a spec r outcome := by
  have h := reach.sound
  have hphase := phase_of_outcome? w a hs hr ho
  have hexplained : (w.view.phase a).Explained (w.history.deedsOf a) := h.explained a
  rw [hphase] at hexplained
  obtain ⟨ending, explains, hcommits⟩ := hexplained.exists_ending
  have hreplayed : w.store = w.history.replay store := h.replayed
  exact {
    ending := ⟨ending, explains⟩
    commits := hcommits
    replayed := hreplayed
    unfelt := by
      intro hnot
      rw [if_neg hnot] at hcommits
      rw [History.replay_without hcommits, hreplayed]
    judged := fun _ _ _ _ hsplit => h.judged hsplit
    queued := h.conserved }

/-- There is room for one record and a feed with two entries. The run is cancelled when it waits to
put the second. -/
theorem commit_all_or_nothing_cancelled : ∃ (w : Intake) (r : RunResult),
    Reaches (start Time.Instant.first.toDateTime (.ofCapacity 1) .unbounded []) w ∧
      w.specOf? 0 = some (.ofSource "a") ∧ w.result? 0 = some r ∧
      w.outcome? 0 = some .cancelled ∧
      RunAccount .unbounded [] w 0 (.ofSource "a") r .cancelled := by
  have reach := ((((reaches_ofFeed (.ofCapacity 1) (.ofSource "a")
    [.bare "x", .bare "y"]).tail (.startRun _ 0)).trans (ticks_reaches 1 _)).tail
      (.cancel _ 0)).trans (ticks_reaches 1 _)
  exact ⟨_, _, reach, rfl, rfl, rfl, commit_all_or_nothing reach rfl rfl rfl⟩

end Intake

end FeedIntake
