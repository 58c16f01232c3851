import FeedIntake.Proofs.Commits

/-! # Undisturbed runs

A run is undisturbed if its fetch succeeds, nobody cancels it, the queue takes every record sooner
or later, and nobody else writes the snapshot of its source while it goes on. Others may do what
they like in between. How far such a run is from its end is measured by the entries still to come:
each time that it moves and finds room it gets nearer, and it never gets farther away.
-/

namespace FeedIntake

open Affairs

/-- What others did since a run moved last spares the run. -/
structure Spares (a : ActivityId) (source : String) (v u : Intake) : Prop where
  /-- It has its role, its stage and its result. -/
  core : u.view.core a = v.view.core a
  specOf? : u.specOf? a = v.specOf? a
  /-- It is not to be cancelled. -/
  going : ∀ x, u.activity? a = some x → x.stopping = false
  deeds : u.history.deedsOf a = v.history.deedsOf a
  snapshot : u.store.snapshot? source = v.store.snapshot? source
  /-- The queue fails no put. -/
  refusal : u.queue.refusal = none

/-- A run that begins and moves again and again: `after n` is the intake after it has moved so many
times more, and `before n` is what others have made of that when it moves next. -/
structure Undisturbed (w : Intake) (a : ActivityId) (j : JobId) (source : String)
    (before after : Nat → Intake) : Prop where
  first : after 0 = w.beginRun a j
  next : ∀ n, after (n + 1) = (before n).move a false
  spared : ∀ n, Spares a source (after n) (before n)
  /-- It finds room in the queue again and again. -/
  room : ∀ n, ∃ m, n ≤ m ∧ (before m).queue.isFull = false

namespace Intake

/-- A run of a job that fetched the given entries is so far from its end. -/
inductive Distance (v : Intake) (a : ActivityId) (spec : JobSpec) (entries : List Entry) :
    Nat → Prop where
  /-- It waits at a gate and has fetched nothing yet. -/
  | asking {c : Core} {r : RunResult} {gated : Bool} (hc : v.view.core a = some c)
      (hstage : c.stage = .atGate ⟨.ok entries, gated⟩)
      (hphase : v.affairs.phase a = .asking spec r) (hdeeds : v.history.deedsOf a = []) :
      Distance v a spec entries (entries.length + 1)
  | offering {r : RunResult} {record : Record} {rest : List Entry}
      (hphase : v.affairs.phase a = .offering spec r record rest)
      (hplain : ∀ e ∈ rest, e.IsPlain) (hfetched : v.history.HasFetched a entries) :
      Distance v a spec entries (rest.length + 1)
  | ended {r : RunResult} (hphase : v.affairs.phase a = .ended spec r .done)
      (hfetched : v.history.HasFetched a entries) : Distance v a spec entries 0

section

variable {w : Intake} {a : ActivityId} {spec : JobSpec} {entries : List Entry}

theorem history_advance (w : Intake) (a : ActivityId) (r : RunResult) :
    (w.advance a r).history = w.history := congrArg View.history (view_advance w a r)

/-- A pass over plain entries ends with the run or with a record for which there is no room. -/
theorem process_distance (h : w.view.spec? a = some spec) (hrefusal : w.queue.refusal = none)
    (hfetched : w.history.HasFetched a entries) (r : RunResult) {rest : List Entry}
    (hplain : ∀ e ∈ rest, e.IsPlain) :
    ∃ k, k ≤ rest.length ∧ Distance (w.process a spec r rest) a spec entries k := by
  induction rest generalizing w r with
  | nil =>
      have hend := affairs_complete h r
      refine ⟨0, Nat.le_refl _, .ended (r := r.conclude spec.perpetual w.now) ?_ ?_⟩
      · rw [process, hend, set_phase_self]
      · have hhistory : (w.complete a spec r).history =
            (w.affairs.commit a spec r.seen).history := congrArg Affairs.history hend
        rw [process, hhistory, Affairs.commit]
        split
        · exact hfetched.cons _
        · exact hfetched
  | cons e rest ih =>
      have hrest : ∀ e ∈ rest, e.IsPlain := fun e he => hplain e (List.mem_cons_of_mem _ he)
      have hnext {v : Intake} (hv : v.view.spec? a = some spec) (hvr : v.queue.refusal = none)
          (hvf : v.history.HasFetched a entries) (r : RunResult) :
          ∃ k, k ≤ (e :: rest).length ∧ Distance (v.process a spec r rest) a spec entries k := by
        obtain ⟨k, hk, distance⟩ := ih hv hvr hvf r hrest
        exact ⟨k, Nat.le_succ_of_le hk, distance⟩
      obtain ⟨record, he⟩ := (hplain e List.mem_cons_self).exists_toRecord spec.source
      unfold process
      rw [he]
      dsimp only
      generalize hjudged : (w.log _).tell _ = judged
      have hspec : judged.view.spec? a = some spec := by rw [← hjudged]; exact h
      have hqueue : judged.queue.refusal = none := by rw [← hjudged]; exact hrefusal
      have hhistory : judged.history.HasFetched a entries := by
        rw [← hjudged]
        exact hfetched.cons _
      split
      · exact hnext hspec hqueue hhistory _
      · rw [RecordQueue.accept_of_refusal hqueue]
        dsimp only
        split
        · generalize r.examine record _ = r'
          have hwait := affairs_keep_awaitRoom hspec r' record rest
          have hphase := (congrFun (congrArg Affairs.phase hwait) a).trans (set_phase_self _ _ _)
          have hsame : ((judged.keep a r').awaitRoom a record rest).history = judged.history :=
            congrArg Affairs.history hwait
          exact ⟨rest.length + 1, Nat.le_refl _, .offering hphase hrest (by
            rw [hsame]
            exact hhistory)⟩
        · refine hnext ((spec?_put record a).trans hspec)
            ((refusal_put judged a spec record).trans hqueue) ?_ _
          have hput : (judged.put a spec record).history =
              .did a spec (.put record) :: judged.history :=
            congrArg Affairs.history (affairs_put record)
          show (judged.put a spec record).history.HasFetched a entries
          rw [hput]
          exact hhistory.cons _

/-- A run that finds the queue full again is no nearer to its end, and otherwise it is. -/
theorem resumePut_distance (hs : w.view.spec? a = some spec) (hrefusal : w.queue.refusal = none)
    (hfetched : w.history.HasFetched a entries) {r : RunResult}
    (hr : w.view.result? a = some r) (record : Record) {rest : List Entry}
    (hplain : ∀ e ∈ rest, e.IsPlain) :
    ∃ k, k ≤ rest.length + 1 ∧ (w.queue.isFull = false → k ≤ rest.length) ∧
      Distance (w.resumePut a spec r record rest) a spec entries k := by
  unfold resumePut
  split
  · rename_i hfull
    have hwait := affairs_awaitRoom hs hr record rest
    have hphase := (congrFun (congrArg Affairs.phase hwait) a).trans (set_phase_self _ _ _)
    have hsame : (w.awaitRoom a record rest).history = w.history :=
      congrArg Affairs.history hwait
    refine ⟨rest.length + 1, Nat.le_refl _, fun hroom => ?_, .offering hphase hplain (by
      rw [hsame]
      exact hfetched)⟩
    rw [hroom] at hfull
    cases hfull
  · have hput : (w.put a spec record).history = .did a spec (.put record) :: w.history :=
      congrArg Affairs.history (affairs_put record)
    obtain ⟨k, hk, distance⟩ := process_distance ((spec?_put record a).trans hs)
      ((refusal_put w a spec record).trans hrefusal)
      (by rw [hput]; exact hfetched.cons _) r.publish hplain
    exact ⟨k, Nat.le_succ_of_le hk, fun _ => hk, distance⟩

theorem deliver_distance (hs : w.view.spec? a = some spec) (hrefusal : w.queue.refusal = none)
    (hdeeds : w.history.deedsOf a = []) (r : RunResult) (hplain : ∀ e ∈ entries, e.IsPlain) :
    ∃ k, k ≤ entries.length ∧
      Distance (w.deliver a spec r (.ok entries)) a spec entries k := by
  unfold deliver
  dsimp only
  refine process_distance ?_ ?_ ⟨[], ?_⟩ _ hplain
  · rw [view_tell, view_advance]
    simpa using hs
  · exact (congrArg RecordQueue.refusal (queue_advance w a _)).trans hrefusal
  · have hhistory : ((w.advance a (r.takeUp entries.length)).tell
        (.did a spec (.fetched entries))).history = .did a spec (.fetched entries) :: w.history :=
      congrArg (_ :: ·) (history_advance w a _)
    rw [hhistory, History.deedsOf_did_self, hdeeds, List.nil_append]

/-- A run that begins gets its entries at once or waits for them at a gate. -/
theorem fetch_distance {j : JobId} {job : Job} {answers : List (String × Answer)} {gated : Bool}
    (hs : w.view.spec? a = some job.spec) (hrefusal : w.queue.refusal = none)
    (hdeeds : w.history.deedsOf a = [])
    (hanswer : answers.lookup job.spec.source = some ⟨.ok entries, gated⟩)
    (hplain : ∀ e ∈ entries, e.IsPlain) :
    ∃ k, k ≤ entries.length + 1 ∧
      Distance (w.fetch a j job (.prepared answers)) a job.spec entries k := by
  unfold fetch
  dsimp only
  generalize hv : ({ advance _ a _ with fetches := _ } : Intake) = v
  have hview : v.view = w.view.setResult a (job.spec.begun w.now) := by
    rw [← hv]
    exact (view_advance _ a _).trans
      (congrArg (View.setResult · a _) (view_onJob w (by exact fun _ => rfl) j))
  have hvs : v.view.spec? a = some job.spec := by
    rw [hview]
    simpa using hs
  have hvr : v.view.result? a = some (job.spec.begun w.now) := by
    rw [hview]
    exact View.result?_setResult_of_spec? hs _
  have hvq : v.queue.refusal = none := by
    rw [← hv]
    exact (congrArg RecordQueue.refusal (queue_advance _ a _)).trans hrefusal
  have hvd : v.history.deedsOf a = [] := by
    have hhistory : v.history = w.history := congrArg View.history hview
    rw [hhistory, hdeeds]
  unfold ask
  rw [hanswer]
  dsimp only [Option.getD_some]
  split
  · obtain ⟨c, hc⟩ := View.exists_core_of_spec? hvs
    have hgate : (({ v with gateLine := v.gateLine ++ [(job.spec.source, a)] } : Intake).suspend a
        (.atGate ⟨.ok entries, gated⟩)).view = v.view.setStage a (.atGate ⟨.ok entries, gated⟩) :=
      view_suspend _ a _
    have hat := congrFun (congrArg Affairs.phase
      (View.affairs_setStage hvs hvr (.atGate ⟨.ok entries, gated⟩))) a
    have hcore : (v.view.setStage a (.atGate ⟨.ok entries, gated⟩)).core a =
        some { c with stage := .atGate ⟨.ok entries, gated⟩ } := by
      rw [View.setStage, View.onCore_core_self, hc]
      rfl
    refine ⟨entries.length + 1, Nat.le_refl _, .asking (r := job.spec.begun w.now)
      (by rw [hgate]; exact hcore) rfl ?_ hvd⟩
    rw [affairs, hgate, hat, set_phase_self]
    rfl
  · obtain ⟨k, hk, distance⟩ := deliver_distance hvs hvq hvd (job.spec.begun w.now) hplain
    exact ⟨k, Nat.le_succ_of_le hk, distance⟩

theorem move_eq {x : Activity} (hx : w.activity? a = some x) (hgoing : x.stopping = false) :
    w.move a false = (w.onActivity a fun x => { x with stopping := false }).act a x.role false false
      x.stage := by
  unfold move
  rw [hx]
  dsimp only
  rw [hgoing]
  rfl

theorem move_resumes {v u : Intake} (spares : Spares a spec.source v u) {c : Core} {r : RunResult}
    (hc : v.view.core a = some c) (hs : v.view.spec? a = some spec)
    (hr : v.view.result? a = some r) : ∃ (role : Role) (u' : Intake),
      u.move a false = u'.act a role false false c.stage ∧ u'.view = u.view ∧
        u'.queue = u.queue ∧ u'.specOf? a = some spec ∧ u'.result? a = some r := by
  have hview : (u.onActivity a fun x => { x with stopping := false }).view = u.view :=
    view_onActivity_of_unseen u a fun _ => rfl
  have hresult : u.view.result? a = some r := by
    rw [← hr, View.result?, View.result?, spares.core]
  rw [← spares.core, view_core, Option.map_eq_some_iff] at hc
  obtain ⟨x, hx, rfl⟩ := hc
  refine ⟨x.role, _, move_eq hx (spares.going x hx), hview, rfl, ?_, ?_⟩
  · rw [← view_spec?, hview, view_spec?, spares.specOf?, ← view_spec?, hs]
  · rw [← view_result?, hview, hresult]

/-- Every move of a run brings it nearer to its end, unless it finds the queue full again. -/
theorem move_distance {v u : Intake} {k : Nat} (distance : Distance v a spec entries k)
    (spares : Spares a spec.source v u) (hplain : ∀ e ∈ entries, e.IsPlain) :
    ∃ k', k' ≤ k ∧ (u.queue.isFull = false → k' ≤ k - 1) ∧
      Distance (u.move a false) a spec entries k' := by
  have hfetched (h : v.history.HasFetched a entries) : u.history.HasFetched a entries := by
    obtain ⟨deeds, hdeeds⟩ := h
    exact ⟨deeds, spares.deeds.trans hdeeds⟩
  cases distance with
  | asking hc hstage hphase hdeeds =>
      obtain ⟨hs, hr, -⟩ := View.of_phase (v := v.view) (a := a)
        (by rw [show v.view.phase a = _ from hphase]; rfl)
        (by rw [show v.view.phase a = _ from hphase]; rfl)
      obtain ⟨role, u', hmove, hview, hqueue, hs', hr'⟩ := move_resumes spares hc hs hr
      rw [hmove, hstage, act, goOn_eq hs' hr', if_neg (by simp)]
      obtain ⟨k, hk, distance⟩ := deliver_distance (w := u') (by rw [view_spec?, hs'])
        (by rw [hqueue, spares.refusal])
        (by rw [show u'.history = u.history from congrArg View.history hview, spares.deeds, hdeeds])
        _ hplain
      exact ⟨k, Nat.le_succ_of_le hk, fun _ => hk, distance⟩
  | offering hphase hrest hf =>
      obtain ⟨hs, hr, c, hc, hstage⟩ := View.of_phase_offering hphase
      obtain ⟨role, u', hmove, hview, hqueue, hs', hr'⟩ := move_resumes spares hc hs hr
      rw [hmove, hstage, act, goOn_eq hs' hr', if_neg (by simp), ← hqueue]
      exact resumePut_distance (by rw [view_spec?, hs']) (by rw [hqueue, spares.refusal])
        (by rw [show u'.history = u.history from congrArg View.history hview]; exact hfetched hf)
        (by rw [view_result?, hr']) _ hrest
  | ended hphase hf =>
      obtain ⟨hs, hr, c, hc, hstage⟩ := View.of_phase_ended hphase
      obtain ⟨role, u', hmove, hview, hqueue, hs', hr'⟩ := move_resumes spares hc hs hr
      have hstill : u'.affairs.phase a = _ := (View.phase_congr (by rw [hview, spares.core])
        (by rw [view_spec?, hs', hs])).trans hphase
      rw [hmove, hstage, act]
      refine ⟨0, Nat.le_refl _, fun _ => Nat.le_refl _, .ended hstill ?_⟩
      rw [show u'.history = u.history from congrArg View.history hview]
      exact hfetched hf

theorem move_turns {v u : Intake} {k : Nat} (distance : Distance v a spec entries k)
    (spares : Spares a spec.source v u) :
    Turns a spec u.affairs (u.move a false).affairs := by
  have hplace {p : Phase} {r : RunResult} (hphase : v.affairs.phase a = p)
      (hs : v.view.spec? a = some spec) (hr : v.view.result? a = some r) {u' : Intake}
      (hview : u'.view = u.view) : u.affairs = u'.affairs.set a p := by
    have hstill : u.view.phase a = p := (View.phase_congr spares.core
      (by rw [view_spec?, view_spec?, spares.specOf?])).trans hphase
    rw [affairs, affairs, hview]
    exact (set_eq_self hstill).symm
  cases distance with
  | asking hc hstage hphase hdeeds =>
      obtain ⟨hs, hr, -⟩ := View.of_phase (v := v.view) (a := a)
        (by rw [show v.view.phase a = _ from hphase]; rfl)
        (by rw [show v.view.phase a = _ from hphase]; rfl)
      obtain ⟨role, u', hmove, hview, -, hs', hr'⟩ := move_resumes spares hc hs hr
      rw [hmove, hstage, act, goOn_eq hs' hr', if_neg (by simp), hplace hphase hs hr hview]
      exact deliver_turns (by rw [view_spec?, hs']) (by rw [view_result?, hr']) _
  | offering hphase hrest hf =>
      obtain ⟨hs, hr, c, hc, hstage⟩ := View.of_phase_offering hphase
      obtain ⟨role, u', hmove, hview, -, hs', hr'⟩ := move_resumes spares hc hs hr
      rw [hmove, hstage, act, goOn_eq hs' hr', if_neg (by simp), hplace hphase hs hr hview]
      exact resumePut_turns (by rw [view_spec?, hs']) (by rw [view_result?, hr']) _ _
  | ended hphase hf =>
      obtain ⟨hs, hr, c, hc, hstage⟩ := View.of_phase_ended hphase
      obtain ⟨role, u', hmove, hview, -, hs', hr'⟩ := move_resumes spares hc hs hr
      rw [hmove, hstage, act, affairs, affairs, hview]

/-! ## Coming to the end -/

variable {j : JobId} {before after : Nat → Intake}

theorem distance_of_le (undisturbed : Undisturbed w a j spec.source before after)
    (hplain : ∀ e ∈ entries, e.IsPlain) {n k : Nat}
    (distance : Distance (after n) a spec entries k) {m : Nat} (hnm : n ≤ m) :
    ∃ k', k' ≤ k ∧ Distance (after m) a spec entries k' := by
  induction hnm with
  | refl => exact ⟨k, Nat.le_refl _, distance⟩
  | step _ ih =>
      obtain ⟨k', hk', distance'⟩ := ih
      obtain ⟨k'', hk'', -, distance''⟩ := move_distance distance' (undisturbed.spared _) hplain
      rw [undisturbed.next]
      exact ⟨k'', Nat.le_trans hk'' hk', distance''⟩

/-- The induction is on the distance, which gets less whenever there is room. -/
theorem exists_ended (undisturbed : Undisturbed w a j spec.source before after)
    (hplain : ∀ e ∈ entries, e.IsPlain) {n k : Nat}
    (distance : Distance (after n) a spec entries k) :
    ∃ m, Distance (after m) a spec entries 0 := by
  induction k using Nat.strongRecOn generalizing n with
  | ind k ih =>
      cases k with
      | zero => exact ⟨n, distance⟩
      | succ k =>
          obtain ⟨m, hnm, hroom⟩ := undisturbed.room n
          obtain ⟨k', hk', distance'⟩ := distance_of_le undisturbed hplain distance hnm
          obtain ⟨k'', -, hless, distance''⟩ :=
            move_distance distance' (undisturbed.spared m) hplain
          have hk'' := hless hroom
          rw [← undisturbed.next] at distance''
          exact ih k'' (by omega) distance''

end

/-! ## A run with room for one record -/

def unread : Intake :=
  ((ofFeed (.ofCapacity 1) (.ofSource "a") [.bare "x", .bare "y"]).startRun 0).1

def halfRead : Intake := unread.beginRun 0 0

def fullyRead : Intake := halfRead.drain.2.move 0 false

/-- The run is undisturbed if the queue is drained whenever it is to move. -/
theorem undisturbed_unread : Undisturbed unread 0 0 "a"
    (fun n => if n = 0 then halfRead.drain.2 else fullyRead.drain.2)
    (fun n => if n = 0 then halfRead else if n = 1 then fullyRead else fullyRead.drain.2) where
  first := rfl
  next
    | 0 => rfl
    | _ + 1 => rfl
  spared
    | 0 => ⟨rfl, rfl, fun _ hx => by cases hx; rfl, rfl, rfl, rfl⟩
    | 1 => ⟨rfl, rfl, fun _ hx => by cases hx; rfl, rfl, rfl, rfl⟩
    | _ + 2 => ⟨rfl, rfl, fun _ hx => by cases hx; rfl, rfl, rfl, rfl⟩
  room
    | 0 => ⟨0, Nat.le_refl _, rfl⟩
    | n + 1 => ⟨n + 1, Nat.le_refl _, rfl⟩

end Intake

end FeedIntake
