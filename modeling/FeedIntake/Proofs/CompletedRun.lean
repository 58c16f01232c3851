import FeedIntake.Proofs.Endings
import FeedIntake.Proofs.Undisturbed

/-! # What an undisturbed run has done

An undisturbed run of plain entries comes through, whatever is in the entries. Every entry is judged
against the snapshot that its source had when the run began, so what was put, what was left out and
for which reason, and what is in the store afterwards can be told from the entries and that
snapshot.
-/

namespace FeedIntake

open Affairs

namespace JobSpec

/-- Whether a run leaves a record out as known, given the snapshot of its source. -/
def knows (spec : JobSpec) (snapshot : Option Snapshot) (record : Record) : Bool :=
  spec.perpetual &&
    (!record.identity.isEmpty && snapshot.any fun ids => ids.contains record.identity)

variable (spec : JobSpec) (store : Snapshots) (record : Record)

theorem judge_eq : spec.judge store record =
    if !record.publishedAt.passes spec.since then .tooOld
    else if spec.knows (store.snapshot? spec.source) record then .repeated
    else .admitted := rfl

/-- Each verdict has a condition of its own, and exactly one of them holds. -/
theorem decide_judge_eq (verdict : Verdict) : decide (spec.judge store record = verdict) =
    match verdict with
    | .tooOld => !record.publishedAt.passes spec.since
    | .repeated =>
        record.publishedAt.passes spec.since && spec.knows (store.snapshot? spec.source) record
    | .admitted =>
        record.publishedAt.passes spec.since &&
          !spec.knows (store.snapshot? spec.source) record := by
  rw [judge_eq]
  cases record.publishedAt.passes spec.since <;>
    cases spec.knows (store.snapshot? spec.source) record <;> cases verdict <;> rfl

end JobSpec

/-! ## Trails judged against one store -/

namespace Trail

def judgedBy (spec : JobSpec) (store : Snapshots) (records : List Record) : Trail :=
  records.map fun record => (record, spec.judge store record)

variable (spec : JobSpec) (store : Snapshots)

theorem eq_judgedBy {spec : JobSpec} {store : Snapshots} {trail : Trail}
    (h : ∀ record verdict, (record, verdict) ∈ trail → verdict = spec.judge store record) :
    trail = judgedBy spec store trail.records := by
  rw [judgedBy, records, List.map_map]
  refine (List.map_id _).symm.trans (List.map_congr_left fun judgement hmem => ?_)
  obtain ⟨record, verdict⟩ := judgement
  rw [h record verdict hmem]
  rfl

theorem records_judgedBy (records : List Record) :
    (judgedBy spec store records).records = records := by
  rw [Trail.records, judgedBy, List.map_map]
  exact List.map_id _

theorem count_judgedBy (records : List Record) (verdict : Verdict) :
    count (judgedBy spec store records) verdict =
      records.countP fun record => decide (spec.judge store record = verdict) := by
  rw [count, judgedBy, List.countP_map]
  rfl

theorem admitted_judgedBy (records : List Record) : admitted (judgedBy spec store records) =
    records.filter fun record => decide (spec.judge store record = .admitted) := by
  rw [admitted, judgedBy, List.filter_map, List.map_map]
  exact List.map_id _

end Trail

/-! ## Runs faithful to one snapshot -/

namespace Affairs

/-- All that a run did, it did as if the store had never changed but by its own commit. -/
structure Faithful (store : Snapshots) (a : ActivityId) (spec : JobSpec) (s : Affairs) : Prop where
  explained : (s.phase a).Explained (s.history.deedsOf a)
  judged : ∀ record verdict, Deed.judged record verdict ∈ s.history.deedsOf a →
    verdict = spec.judge store record
  snapshot : s.store.snapshot? spec.source =
    match (s.history.commitsOf a).getLast? with
    | some identities => some (Snapshots.setOf identities)
    | none => store.snapshot? spec.source

variable {store : Snapshots} {a : ActivityId} {spec : JobSpec} {s t : Affairs}

theorem commitsOf_eq_nil_of_judged (h : (t.phase a).Explained (t.history.deedsOf a))
    {record : Record} {verdict : Verdict} {deeds : List Deed}
    (hdeeds : t.history.deedsOf a = deeds ++ [.judged record verdict]) :
    deeds.filterMap Deed.identitiesCommitted? = [] := by
  rw [List.filterMap_eq_nil_iff]
  intro deed hmem
  cases deed with
  | committed identities =>
      obtain ⟨before, after, rfl⟩ := List.append_of_mem hmem
      have hsplit : t.history.deedsOf a =
          before ++ .committed identities :: (after ++ [.judged record verdict]) := by
        rw [hdeeds, List.append_assoc, List.cons_append]
      obtain ⟨_, _, _, _, _, -, -, -, -, -, hafter⟩ := h.of_committed hsplit
      simp at hafter
  | _ => rfl

theorem Turn.faithful (turn : Turn a spec s t) (h : s.Faithful store a spec) :
    t.Faithful store a spec := by
  have hexplained := turn.explained h.explained
  rcases turn.effect with ⟨hhistory, hstore, -⟩ | ⟨deed, hhistory, hstore, -, -, hverdict⟩
  · exact {
      explained := hexplained
      judged := by rw [hhistory]; exact h.judged
      snapshot := by rw [hhistory, hstore]; exact h.snapshot }
  · have hdeeds : t.history.deedsOf a = s.history.deedsOf a ++ [deed] := by
      rw [hhistory, History.deedsOf_did_self]
    exact {
      explained := hexplained
      judged := by
        intro record verdict hmem
        rw [hdeeds] at hmem
        rcases List.mem_append.mp hmem with hold | hnew
        · exact h.judged record verdict hold
        · obtain rfl := List.mem_singleton.mp hnew
          have hsnapshot := h.snapshot
          rw [History.commitsOf, commitsOf_eq_nil_of_judged hexplained hdeeds] at hsnapshot
          rw [hverdict record verdict rfl]
          exact JobSpec.judge_congr hsnapshot record
      snapshot := by
        rw [hstore, History.commitsOf, hdeeds, List.filterMap_append]
        cases deed with
        | committed identities =>
            simp [Event.apply, Snapshots.snapshot?_commit_self, Deed.identitiesCommitted?]
        | _ =>
            simp only [Deed.identitiesCommitted?, List.filterMap_cons, List.filterMap_nil,
              List.append_nil]
            exact h.snapshot }

/-- The judgements of a faithful run are those that the store at its beginning makes. -/
theorem Faithful.trail_eq (h : s.Faithful store a spec) {entries : List Entry} {trail : Trail}
    {more : List Deed}
    (hdeeds : s.history.deedsOf a = .fetched entries :: trail.deeds ++ more) :
    trail = .judgedBy spec store trail.records := by
  refine Trail.eq_judgedBy fun record verdict hmem => h.judged record verdict ?_
  rw [hdeeds]
  exact List.mem_cons_of_mem _ (List.mem_append_left _ (Trail.judged_mem_deeds hmem))

/-- A faithful run that came through has judged all that it fetched against the store at its
beginning. -/
theorem Faithful.exists_progress (h : s.Faithful store a spec) {r : RunResult}
    {entries : List Entry} (hphase : s.phase a = .ended spec r .done)
    (hfetched : s.history.HasFetched a entries) : ∃ r' records now,
      Progress spec r' entries [] (.judgedBy spec store records) ∧
        r = r'.conclude spec.perpetual now ∧
        s.history.deedsOf a = .fetched entries :: (Trail.judgedBy spec store records).deeds ++
          if spec.perpetual then [.committed r'.seen] else [] := by
  obtain ⟨deeds, hdeeds⟩ := hfetched
  have hexplained := h.explained
  rw [hphase, hdeeds] at hexplained
  obtain ⟨r', trail, now, progress, rfl, rfl⟩ := hexplained.of_done
  have htrail := h.trail_eq hdeeds
  rw [htrail] at progress hdeeds
  exact ⟨r', trail.records, now, progress, rfl, hdeeds⟩

theorem Turns.faithful (turns : Turns a spec s t) (h : s.Faithful store a spec) :
    t.Faithful store a spec := by
  induction turns with
  | refl => exact h
  | tail _ turn ih => exact turn.faithful ih

theorem Turns.deeds (turns : Turns a spec s t) : ∃ deeds,
    t.history.deedsOf a = s.history.deedsOf a ++ deeds ∧
      t.records = s.records ++ deeds.filterMap Deed.recordPut? ∧
      t.store = (deeds.filterMap Deed.identitiesCommitted?).foldl
        (fun store ids => store.commit spec.source ids) s.store := by
  induction turns with
  | refl => exact ⟨[], by simp, by simp, rfl⟩
  | tail _ turn ih =>
      obtain ⟨deeds, hdeeds, hrecords, hstore⟩ := ih
      rcases turn.effect with ⟨hhistory, hsame, hkept⟩ | ⟨deed, hhistory, hfelt, hmore, -⟩
      · exact ⟨deeds, by rw [hhistory, hdeeds], by rw [hkept, hrecords], by rw [hsame, hstore]⟩
      · refine ⟨deeds ++ [deed], ?_, ?_, ?_⟩
        · rw [hhistory, History.deedsOf_did_self, hdeeds, List.append_assoc]
        · rw [hmore, hrecords, List.filterMap_append, List.append_assoc]
          cases deed <;> rfl
        · rw [hfelt, hstore, List.filterMap_append, List.foldl_append]
          cases deed <;> rfl

end Affairs

/-- What a run of a job has done when it is through with the given entries, which are the given
records, told from what the store held when it began. -/
structure CompletedRun (store : Snapshots) (spec : JobSpec) (entries : List Entry)
    (records : List Record) (v : Intake) (a : ActivityId) (r : RunResult) : Prop where
  result : v.result? a = some r
  outcome : v.outcome? a = some .done
  success : r.success = true
  read : entries.map (·.toRecord spec.source) = records.map .ok
  /-- In the order of the feed, the new records that were not known at the beginning. -/
  put : v.history.recordsPutBy a = records.filter fun record =>
    record.publishedAt.passes spec.since && !spec.knows (store.snapshot? spec.source) record
  fetched : r.fetched = entries.length
  published : r.published = records.countP fun record =>
    record.publishedAt.passes spec.since && !spec.knows (store.snapshot? spec.source) record
  tooOld : r.tooOld = records.countP fun record => !record.publishedAt.passes spec.since
  repeated : r.repeated = records.countP fun record =>
    record.publishedAt.passes spec.since && spec.knows (store.snapshot? spec.source) record
  sum : r.published + r.tooOld + r.repeated = r.fetched
  undated : r.undated = records.countP fun record => record.publishedAt.isFallback
  seen_nodup : r.seen.Nodup
  mem_seen : ∀ x, x ∈ r.seen ↔ x ≠ "" ∧ ∃ record ∈ records, record.identity = x
  commits : v.history.commitsOf a = if spec.perpetual then [r.seen] else []
  snapshot : v.store.snapshot? spec.source =
    if spec.perpetual then some r.seen else store.snapshot? spec.source

/-- Between two states a run changed the queue and the store by its own puts and commits alone. -/
structure Adds (a : ActivityId) (source : String) (v v' : Intake) : Prop where
  puts : ∃ puts, v'.queue.records = v.queue.records ++ puts ∧
    v'.history.recordsPutBy a = v.history.recordsPutBy a ++ puts
  commits : ∃ commits,
    v'.store = commits.foldl (fun store ids => store.commit source ids) v.store ∧
      v'.history.commitsOf a = v.history.commitsOf a ++ commits

namespace Intake

variable {w v u : Intake} {a : ActivityId} {spec : JobSpec} {entries : List Entry}
  {store : Snapshots}

theorem Spares.faithful (spares : Spares a spec.source v u) (h : v.affairs.Faithful store a spec) :
    u.affairs.Faithful store a spec := by
  have hphase : u.affairs.phase a = v.affairs.phase a :=
    View.phase_congr spares.core (by rw [view_spec?, view_spec?, spares.specOf?])
  have hdeeds : u.affairs.history.deedsOf a = v.affairs.history.deedsOf a := spares.deeds
  exact {
    explained := by rw [hphase, hdeeds]; exact h.explained
    judged := by rw [hdeeds]; exact h.judged
    snapshot := by
      rw [History.commitsOf, hdeeds]
      exact spares.snapshot.trans h.snapshot }

theorem adds_of_turns {v' : Intake} (turns : Turns a spec v.affairs v'.affairs) :
    Adds a spec.source v v' := by
  obtain ⟨deeds, hdeeds, hrecords, hstore⟩ := turns.deeds
  have hdone : v'.history.deedsOf a = v.history.deedsOf a ++ deeds := hdeeds
  exact {
    puts := ⟨_, hrecords, by
      rw [History.recordsPutBy, hdone, List.filterMap_append, ← History.recordsPutBy]⟩
    commits := ⟨_, hstore, by
      rw [History.commitsOf, hdone, List.filterMap_append, ← History.commitsOf]⟩ }

theorem phase_idle_of_result? (hresult : w.result? a = none) : w.affairs.phase a = .idle :=
  View.phase_eq_idle_iff.mpr fun c hc => by
    have hnone : w.view.result? a = none := by rw [view_result?, hresult]
    rwa [View.result?, hc] at hnone

theorem faithful_of_fresh (hresult : w.result? a = none) (hdeeds : w.history.deedsOf a = [])
    (spec : JobSpec) : w.affairs.Faithful w.store a spec := by
  have hidle := phase_idle_of_result? hresult
  have hnothing : w.affairs.history.deedsOf a = [] := hdeeds
  exact {
    explained := by rw [hidle, hnothing]; exact .idle
    judged := by simp [hnothing]
    snapshot := by
      rw [History.commitsOf, hnothing]
      rfl }

theorem Distance.completed (distance : Distance v a spec entries 0)
    (h : v.affairs.Faithful store a spec) :
    ∃ r records, CompletedRun store spec entries records v a r := by
  cases distance with
  | ended hphase hfetched =>
      rename_i r
      obtain ⟨r', records, now, progress, rfl, hdeeds⟩ := h.exists_progress hphase hfetched
      have hdone : v.history.deedsOf a = _ := hdeeds
      have hput : v.history.recordsPutBy a = Trail.admitted (.judgedBy spec store records) := by
        rw [History.recordsPutBy_eq hdone]
        cases spec.perpetual <;> simp [Deed.recordPut?]
      have hcommits : v.history.commitsOf a = if spec.perpetual then [r'.seen] else [] := by
        rw [History.commitsOf_eq hdone]
        cases spec.perpetual <;> simp [Deed.identitiesCommitted?]
      have hseen := progress.tally.seen
      have hread := progress.read
      have hundated := progress.tally.undated
      rw [Trail.records_judgedBy] at hseen hread hundated
      obtain ⟨-, hresult, houtcome⟩ := of_phase_ended v a hphase
      refine ⟨r'.conclude spec.perpetual now, records, ?_⟩
      exact {
        result := hresult
        outcome := houtcome
        success := progress.tally.success_conclude _ _
        read := hread
        put := by
          rw [hput, Trail.admitted_judgedBy]
          simp only [JobSpec.decide_judge_eq]
        fetched := progress.tally.fetched
        published := by
          refine progress.tally.published.trans ?_
          rw [Trail.count_judgedBy]
          simp only [JobSpec.decide_judge_eq]
        tooOld := by
          refine progress.tally.tooOld.trans ?_
          rw [Trail.count_judgedBy]
          simp only [JobSpec.decide_judge_eq]
        repeated := by
          refine progress.tally.repeated.trans ?_
          rw [Trail.count_judgedBy]
          simp only [JobSpec.decide_judge_eq]
        sum := by
          refine progress.tally.sum.trans ?_
          rw [progress.length_eq]
          exact progress.tally.fetched.symm
        undated := hundated
        seen_nodup := by
          show r'.seen.Nodup
          rw [hseen]
          exact Snapshots.setOf_nodup _
        mem_seen := by
          intro x
          show x ∈ r'.seen ↔ _
          rw [hseen, Snapshots.mem_setOf, List.mem_map]
        commits := hcommits
        snapshot := by
          have hsnapshot := h.snapshot
          rw [show v.affairs.history.commitsOf a = _ from hcommits] at hsnapshot
          refine hsnapshot.trans ?_
          cases spec.perpetual with
          | false => rfl
          | true =>
              show some (Snapshots.setOf r'.seen) = some r'.seen
              rw [hseen, Snapshots.setOf_setOf] }

variable {j : JobId} {before after : Nat → Intake}

/-- An undisturbed run is at every time at some distance from its end, and faithful to the store
with which it began. -/
theorem Undisturbed.faithful (undisturbed : Undisturbed w a j spec.source before after)
    (hplain : ∀ e ∈ entries, e.IsPlain) (hnear : ∃ k, Distance (after 0) a spec entries k)
    (hfirst : (after 0).affairs.Faithful store a spec) (n : Nat) :
    (∃ k, Distance (after n) a spec entries k) ∧ (after n).affairs.Faithful store a spec := by
  induction n with
  | zero => exact ⟨hnear, hfirst⟩
  | succ n ih =>
      obtain ⟨⟨k, distance⟩, hfaithful⟩ := ih
      have spares := undisturbed.spared n
      obtain ⟨k', -, -, distance'⟩ := move_distance distance spares hplain
      rw [undisturbed.next]
      exact ⟨⟨k', distance'⟩,
        (move_turns distance spares).faithful (Spares.faithful spares hfaithful)⟩

/-- A run of plain entries that is not disturbed comes to its end, a success, and has then done
exactly what the entries and the store at its beginning say. Each of its moves adds nothing to the
queue and the store but what it puts and commits. -/
theorem undisturbed_run_completes {job : Job} {answers : List (String × Answer)} {gated : Bool}
    (hj : w.jobOf? a = some j) (hjob : w.jobs[j]? = some job)
    (hsupplier : w.suppliers[job.supplier]? = some (.prepared answers))
    (hanswer : answers.lookup job.spec.source = some ⟨.ok entries, gated⟩)
    (hplain : ∀ e ∈ entries, e.IsPlain) (hresult : w.result? a = none)
    (hdeeds : w.history.deedsOf a = []) (hrefusal : w.queue.refusal = none)
    (undisturbed : Undisturbed w a j job.spec.source before after) :
    (∃ n r records, CompletedRun w.store job.spec entries records (after n) a r) ∧
      Adds a job.spec.source w (after 0) ∧
      ∀ n, Adds a job.spec.source (before n) (after (n + 1)) := by
  have hs : w.view.spec? a = some job.spec := by
    rw [view_spec?, specOf?, hj, Option.bind_some, hjob, Option.map_some]
  have hfresh := faithful_of_fresh hresult hdeeds job.spec
  have hidle := phase_idle_of_result? hresult
  have hfirst : after 0 = w.fetch a j job (.prepared answers) := by
    rw [undisturbed.first, beginRun, hjob]
    dsimp only
    rw [hsupplier]
  have hbegin := fetch_turns (j := j) hs hidle (.prepared answers)
  rw [← hfirst] at hbegin
  obtain ⟨k, -, hnear⟩ := fetch_distance (j := j) hs hrefusal hdeeds hanswer hplain
  rw [← hfirst] at hnear
  have hall := Undisturbed.faithful undisturbed hplain ⟨k, hnear⟩ (hbegin.faithful hfresh)
  refine ⟨?_, adds_of_turns hbegin, fun n => ?_⟩
  · obtain ⟨n, hend⟩ := exists_ended undisturbed hplain hnear
    obtain ⟨r, records, completed⟩ := hend.completed (hall n).2
    exact ⟨n, r, records, completed⟩
  · obtain ⟨⟨k, distance⟩, -⟩ := hall n
    have turns := move_turns distance (undisturbed.spared n)
    rw [← undisturbed.next] at turns
    exact adds_of_turns turns

theorem undisturbed_run_completes_unread :
    ∃ n r records, CompletedRun .unbounded (.ofSource "a") [.bare "x", .bare "y"] records
      (if n = 0 then halfRead else if n = 1 then fullyRead else fullyRead.drain.2) 0 r := by
  have hjob : unread.jobs[0]? = some ⟨.ofSource "a", 0, .idle, none⟩ := rfl
  have hplain : ∀ e ∈ [Entry.bare "x", Entry.bare "y"], e.IsPlain := by
    simp [Entry.bare_isPlain]
  exact (undisturbed_run_completes rfl hjob rfl rfl hplain rfl rfl rfl undisturbed_unread).1

end Intake

end FeedIntake
