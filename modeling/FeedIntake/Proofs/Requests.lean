import FeedIntake.Proofs.Bystanders
import FeedIntake.Proofs.Fetching
import FeedIntake.Proofs.Succession

/-! # Runs that ask the network

A run of a network supplier makes its one request in the step in which it begins. The response is
settled then, whatever becomes of the web. Until the run moves again it waits for that response, a
move is due for it, and what it goes on with is what the response comes to.
-/

namespace FeedIntake

open Affairs
open Time (DateTime)

/-! ## Underway -/

/-- Whether a run is done with asking. -/
def Phase.isUnderWay : Phase → Bool
  | working _ _ _ | offering _ _ _ _ | ended _ _ _ => true
  | idle | astray | asking _ _ => false

namespace Affairs

variable {s t : Affairs} {a b : ActivityId} {spec : JobSpec}

theorem Turn.isUnderWay (turn : Turn a spec s t) (h : (s.phase b).isUnderWay = true) :
    (t.phase b).isUnderWay = true := by
  by_cases hb : b = a
  · subst hb
    cases turn with
    | begin now hp | fetch entries hp =>
        rw [hp] at h
        cases h
    | _ =>
        rw [set_phase_self]
        rfl
  · rw [turn.phase_of_ne hb]
    exact h

theorem Course.isUnderWay (course : Course s t) (h : (s.phase b).isUnderWay = true) :
    (t.phase b).isUnderWay = true := by
  induction course with
  | refl => exact h
  | tail _ step ih =>
      rcases step with ⟨a, spec, turn⟩ | take
      · exact turn.isUnderWay ih
      · rw [take.phase]
        exact ih

theorem Course.hasFetched (course : Course s t) {entries : List Entry}
    (h : s.history.HasFetched a entries) : t.history.HasFetched a entries := by
  obtain ⟨deeds, hdeeds⟩ := h
  obtain ⟨later, heq⟩ := course.history_suffix
  exact ⟨deeds ++ History.deedsOf later a, by
    rw [← heq, History.deedsOf_append, hdeeds, List.cons_append]⟩

end Affairs

/-! ## The end of a wait -/

def Intake.Awaits (v : Intake) (a : ActivityId) (url : String) (response : Response) : Prop :=
  ∃ role, v.place? a = some (role, .onNetwork url response)

/-- Where a run of a job stands that has begun at some time, asked for a URL and is to get this
response. -/
inductive Intake.Follows (spec : JobSpec) (begun : DateTime) (url : String) (response : Response)
    (v : Intake) (a : ActivityId) : Prop where
  | waits (awaits : v.Awaits a url response)
      (phase : v.affairs.phase a = .asking spec (spec.begun begun))
      (deeds : v.history.deedsOf a = []) (due : ∃ calledOff, .move a calledOff ∈ v.ready)
  | took {entries : List Entry} (given : spec.conclusion url response = .ok entries)
      (fetched : v.history.HasFetched a entries)
      (underWay : (v.affairs.phase a).isUnderWay = true)
  | failed {r : RunResult} {outcome : RunOutcome}
      (phase : v.affairs.phase a = .ended spec r outcome) (deeds : v.history.deedsOf a = [])

/-- A response that is broken off on request comes to a cancellation. -/
theorem JobSpec.conclusion_interrupted (spec : JobSpec) (url : String) (response : Response) :
    spec.conclusion url (Intake.interrupted response) = .error (.outside .cancelled "") := by
  have met : (Intake.interrupted response).Meets (.outside .cancelled "") := .connecting rfl
  rw [conclusion, Fetcher.conclude_of_error (met.download url), Fetcher.explain_of_foreign rfl]
  rfl

namespace Intake

variable {w v v' : Intake} {a : ActivityId} {spec : JobSpec} {begun : DateTime} {url : String}
  {response : Response}

theorem deliver_takesUp (hs : w.view.spec? a = some spec) (hdeeds : w.history.deedsOf a = [])
    (r : RunResult) (entries : List Entry) :
    (w.deliver a spec r (.ok entries)).history.HasFetched a entries ∧
      ((w.deliver a spec r (.ok entries)).affairs.phase a).isUnderWay = true := by
  have turns : ForeseenTurns none True a spec _ (w.deliver a spec r (.ok entries)).affairs :=
    deliver_ok_foreseen hs (fun _ => trivial) r entries
  have course := Course.of_turns turns.turns
  refine ⟨course.hasFetched ⟨[], ?_⟩, course.isUnderWay ?_⟩
  · rw [set_history, Affairs.tell, History.deedsOf_did_self]
    exact congrArg (· ++ _) hdeeds
  · rw [set_phase_self]
    rfl

theorem deliver_follows (hs : w.view.spec? a = some spec) {r : RunResult}
    (hr : w.view.result? a = some r) (hdeeds : w.history.deedsOf a = [])
    {given : Except Fault (List Entry)}
    (hgiven : ∀ entries, given = .ok entries → spec.conclusion url response = .ok entries) :
    Follows spec begun url response (w.deliver a spec r given) a := by
  cases given with
  | error fault =>
      have hends := affairs_deliver_error hs hr fault
      have hphase := congrFun (congrArg Affairs.phase hends) a
      have hhistory : (w.deliver a spec r (.error fault)).history = w.history :=
        congrArg Affairs.history hends
      exact .failed (hphase.trans (set_phase_self _ _ _)) (by rw [hhistory, hdeeds])
  | ok entries =>
      obtain ⟨fetched, underWay⟩ := deliver_takesUp hs hdeeds r entries
      exact .took (hgiven entries rfl) fetched underWay

theorem receive_follows (hs : w.view.spec? a = some spec) {r : RunResult}
    (hr : w.view.result? a = some r) (hdeeds : w.history.deedsOf a = []) (stop : Bool) :
    Follows spec begun url response
      (w.receive a spec r url (if stop then interrupted response else response)) a := by
  refine deliver_follows (w := w.log _) hs hr hdeeds fun entries hentries => ?_
  have hconclusion : spec.conclusion url (if stop then interrupted response else response) =
      .ok entries := hentries
  split at hconclusion
  · rw [JobSpec.conclusion_interrupted] at hconclusion
    cases hconclusion
  · exact hconclusion

theorem attend_view (v : Intake) (a : ActivityId) (due : List Call) :
    (v.attend a due).view = v.view := view_onActivity_of_unseen _ a fun _ => rfl

theorem of_phase_asking {r : RunResult} (h : v.affairs.phase a = .asking spec r) :
    v.specOf? a = some spec ∧ v.result? a = some r := by
  obtain ⟨hs, hr, -⟩ := View.of_phase (congrArg Phase.spec? h) (congrArg Phase.result? h)
  rw [view_spec?] at hs
  rw [view_result?] at hr
  exact ⟨hs, hr⟩

theorem Awaits.move (awaits : v.Awaits a url response) {r : RunResult}
    (hs : v.specOf? a = some spec) (hr : v.result? a = some r) (due : List Call)
    (calledOff : Bool) :
    ∃ x, v.activity? a = some x ∧ ({ v with ready := due } : Intake).move a calledOff =
      (v.attend a due).receive a spec r url
        (if calledOff || x.stopping then interrupted response else response) := by
  obtain ⟨role, hplace⟩ := awaits
  obtain ⟨p, hp, heq⟩ := Option.map_eq_some_iff.mp hplace
  rw [post?_eq, Option.map_eq_some_iff] at hp
  obtain ⟨x, hx, rfl⟩ := hp
  have hstage : x.stage = .onNetwork url response := congrArg Prod.snd heq
  have hview := attend_view v a due
  refine ⟨x, hx, ?_⟩
  rw [move_eq_act hx, hstage, act]
  exact goOn_eq (by rw [← view_spec?, hview, view_spec?, hs])
    (by rw [← view_result?, hview, view_result?, hr]) _

/-- The induction over steps: who waits goes on waiting or moves, and who has moved does not come
back. -/
theorem Follows.step (follows : Follows spec begun url response v a) (step : Step v v')
    (htidy : v.affairs.Tidy) : Follows spec begun url response v' a := by
  have course := step.course htidy
  cases follows with
  | waits awaits phase deeds due =>
      obtain ⟨hs, hr⟩ := of_phase_asking phase
      rcases step.moves_or_rests htidy a with ⟨before, calledOff, after, -, rfl⟩ | rests
      · obtain ⟨x, -, heq⟩ := awaits.move hs hr (before ++ after) calledOff
        rw [heq]
        have hview := attend_view v a (before ++ after)
        exact receive_follows (w := v.attend a (before ++ after)) (by rw [hview, view_spec?, hs])
          (by rw [hview, view_result?, hr]) deeds _
      · exact .waits (awaits.imp fun _ => rests.stays) (rests.phase.trans phase)
          (rests.deeds.trans deeds) (due.imp fun _ => rests.due)
  | took given fetched underWay =>
      exact .took given (course.hasFetched fetched) (course.isUnderWay underWay)
  | failed phase deeds =>
      exact .failed (course.phase_of_ended phase) ((course.deedsOf_of_ended phase).trans deeds)

theorem Follows.reaches (follows : Follows spec begun url response v a) (reach : Reaches v v')
    (htidy : v.affairs.Tidy) : Follows spec begun url response v' a := by
  induction reach with
  | refl => exact follows
  | tail before step ih => exact ih.step step ((Reaches.course before htidy).tidy htidy)

/-! ## The beginning -/

/-- A run begins with a step. -/
structure Begins (w w' : Intake) (a : ActivityId) : Prop where
  step : Step w w'
  before : w.result? a = none
  after : (w'.result? a).isSome = true

theorem Reaches.exists_begins {origin : Intake} (reach : Reaches origin v)
    (hbefore : origin.result? a = none) (hafter : (v.result? a).isSome = true) :
    ∃ w w', Reaches origin w ∧ Begins w w' a ∧ Reaches w' v := by
  induction reach with
  | refl =>
      rw [hbefore] at hafter
      cases hafter
  | tail earlier step ih =>
      rename_i u v
      cases hresult : u.result? a with
      | none => exact ⟨u, v, earlier, ⟨step, hresult, hafter⟩, .refl⟩
      | some r =>
          obtain ⟨w, w', hreach, begins, later⟩ := ih (by rw [hresult]; rfl)
          exact ⟨w, w', hreach, begins, later.tail step⟩

/-- What a run finds when it begins is the same here and there. -/
structure Alike (w u : Intake) : Prop where
  now : u.now = w.now
  view : u.view = w.view
  queue : u.queue = w.queue
  suppliers : u.suppliers = w.suppliers
  web : u.web = w.web
  jobs : u.jobSpecs = w.jobSpecs
  requests : u.requests = w.requests

namespace Alike

variable {u : Intake}

theorem refl (w : Intake) : Alike w w := ⟨rfl, rfl, rfl, rfl, rfl, rfl, rfl⟩

theorem attend (w : Intake) (a : ActivityId) (due : List Call) : Alike w (w.attend a due) :=
  ⟨rfl, attend_view w a due, rfl, rfl, rfl, rfl, rfl⟩

theorem onRound (w : Intake) (r : RoundId) (f : Round → Round) : Alike w (w.onRound r f) :=
  ⟨rfl, rfl, rfl, rfl, rfl, rfl, rfl⟩

theorem trans {v : Intake} (h : Alike w u) (h' : Alike u v) : Alike w v :=
  ⟨h'.now.trans h.now, h'.view.trans h.view, h'.queue.trans h.queue,
    h'.suppliers.trans h.suppliers, h'.web.trans h.web, h'.jobs.trans h.jobs,
    h'.requests.trans h.requests⟩

theorem wakeAny (w : Intake) (someone : Option ActivityId) : Alike w (w.wakeAny someone) := by
  cases someone with
  | none => exact refl w
  | some b => exact ⟨rfl, view_wake w b, rfl, rfl, rfl, rfl, rfl⟩

theorem onJob (w : Intake) (j : JobId) {f : Job → Job} (hspec : ∀ job, (f job).spec = job.spec)
    (hsupplier : ∀ job, (f job).supplier = job.supplier) : Alike w (w.onJob j f) where
  now := rfl
  view := view_onJob w hspec j
  queue := rfl
  suppliers := rfl
  web := rfl
  jobs := List.map_modify_of_unseen (fun job => by rw [hspec, hsupplier]) w.jobs j
  requests := rfl

theorem keep (h : Alike w u) (a : ActivityId) (r : RunResult) :
    Alike (w.keep a r) (u.keep a r) :=
  ⟨h.now, by rw [view_keep, view_keep, h.view], h.queue, h.suppliers, h.web, h.jobs, h.requests⟩

theorem advance (w : Intake) (a : ActivityId) (r : RunResult) :
    Alike (w.keep a r) (w.advance a r) := by
  unfold Intake.advance
  dsimp only
  split
  · exact onJob _ _ (by exact fun _ => rfl) (by exact fun _ => rfl)
  · exact refl _

theorem withPermits (w : Intake) (r : RoundId) (p : Permits × Option ActivityId) :
    Alike w (w.withPermits r p) := (onRound w r _).trans (wakeAny _ p.2)

end Alike

section

variable {j : JobId}

theorem goOn_of_idle (hidle : w.affairs.phase a = .idle) (f : JobSpec → RunResult → Intake) :
    w.goOn a f = w := by
  rcases goOn_cases w a f with heq | ⟨spec, r, -, hr, -⟩
  · exact heq
  · rw [view_result?, (phase_idle_iff w a).mp hidle] at hr
    cases hr

/-- A run has begun in just this way, or has not begun. -/
def Launches (w : Intake) (a : ActivityId) (j : JobId) (w' : Intake) : Prop :=
  w'.affairs.phase a = .idle ∨ ∃ u, Alike w u ∧ w' = u.beginRun a j

theorem Launches.of_same {w' : Intake} (hidle : w.affairs.phase a = .idle)
    (h : w'.affairs = w.affairs) : Launches w a j w' := .inl (by rw [h, hidle])

theorem beginMember_launches (hidle : w.affairs.phase a = .idle) (r : RoundId) :
    Launches w a j (w.beginMember a r j) := by
  unfold beginMember
  split
  · exact .inl hidle
  · split
    · exact .of_same hidle (affairs_suspend_of_idle (w := w.onRound r _) hidle _)
    · exact .inr ⟨_, .onRound w r _, rfl⟩

theorem leaveLine_launches (hidle : w.affairs.phase a = .idle) (r : RoundId)
    (calledOff stop : Bool) : Launches w a j (w.leaveLine a r j calledOff stop) := by
  unfold leaveLine
  split
  · exact .inl hidle
  · rename_i round _
    split
    · exact .of_same hidle (affairs_close_of_idle hidle .cancelled)
    · split
      · have hgiven := affairs_withPermits (w := w) r (round.permits.giveUp a)
        have hclose := affairs_close_of_idle (by rw [hgiven]; exact hidle) .cancelled
        exact .of_same hidle (hclose.trans hgiven)
      · exact .inr ⟨_, .withPermits w r _, rfl⟩

/-- Who has not begun and acts begins then, with the permit that it needs, or later. -/
theorem act_launches {role : Role} (hj : role.job? = some j) (hidle : w.affairs.phase a = .idle)
    (calledOff stop : Bool) (stage : Stage) :
    Launches w a j (w.act a role calledOff stop stage) := by
  have hend (outcome : RunOutcome) : Launches w a j (w.endOwner a outcome) :=
    .of_same hidle (affairs_endOwner_of_idle hidle outcome)
  have hgoOn (f : JobSpec → RunResult → Intake) : Launches w a j (w.goOn a f) :=
    .of_same hidle (by rw [goOn_of_idle hidle])
  unfold act
  cases stage with
  | fresh =>
      dsimp only
      split
      · exact hend _
      · cases role with
        | run i =>
            cases hj
            exact .inr ⟨w, .refl w, rfl⟩
        | member r i =>
            cases hj
            exact beginMember_launches hidle r
        | round | collector | taker => cases hj
  | inLine =>
      cases role with
      | member r i =>
          cases hj
          exact leaveLine_launches hidle r calledOff stop
      | _ => exact .inl hidle
  | atGate | onNetwork | atQueue => exact hgoOn _
  | gathering =>
      dsimp only
      split
      · exact hend _
      · cases role with
        | run | member => exact .inl hidle
        | round | collector | taker => cases hj
  | awaitingRecord =>
      dsimp only
      split
      · exact .of_same hidle (affairs_stopTaking hidle _)
      · exact .inl ((takeRecords_takes hidle).phase a ▸ hidle)
  | joining => exact hend _
  | finished => exact .inl hidle

theorem Begins.phase {w' : Intake} (begins : Begins w w' a) :
    w.affairs.phase a = .idle ∧ w'.affairs.phase a ≠ .idle := by
  refine ⟨(phase_idle_iff w a).mpr begins.before, fun h => ?_⟩
  have hsome := begins.after
  rw [(phase_idle_iff w' a).mp h] at hsome
  cases hsome

theorem Begins.exists_act {w' : Intake} (begins : Begins w w' a) (htidy : w.affairs.Tidy) :
    ∃ x due calledOff, w.activity? a = some x ∧
      w' = (w.attend a due).act a x.role calledOff (calledOff || x.stopping) x.stage := by
  obtain ⟨hidle, hbegun⟩ := begins.phase
  rcases begins.step.moves_or_rests htidy a with ⟨before, calledOff, after, -, rfl⟩ | rests
  · cases hx : w.activity? a with
    | none =>
        refine absurd ?_ hbegun
        rw [move_of_nobody hx]
        exact hidle
    | some x => exact ⟨x, before ++ after, calledOff, rfl, move_eq_act hx _ _⟩
  · exact absurd (rests.phase.trans hidle) hbegun

theorem Begins.exists_beginRun {w' : Intake} (begins : Begins w w' a) (htidy : w.affairs.Tidy)
    (hj : w.jobOf? a = some j) : ∃ u, Alike w u ∧ w' = u.beginRun a j := by
  obtain ⟨hidle, hbegun⟩ := begins.phase
  obtain ⟨x, due, calledOff, hx, rfl⟩ := begins.exists_act htidy
  have alike := Alike.attend w a due
  have hjob : x.role.job? = some j := by
    rw [jobOf?, role?, hx] at hj
    exact hj
  rcases act_launches (w := w.attend a due) hjob (by rw [affairs, alike.view]; exact hidle)
    calledOff (calledOff || x.stopping) x.stage with hstill | ⟨u, alike', heq⟩
  · exact absurd hstill hbegun
  · exact ⟨u, alike.trans alike', heq⟩

end

/-! ## Runs of network suppliers -/

/-- A run is one of a job whose entries are asked for on the network. -/
def NetworkRun (w : Intake) (a : ActivityId) (spec : JobSpec) (fetcher : Fetcher) : Prop :=
  ∃ j s, w.jobOf? a = some j ∧ w.jobSpecs[j]? = some (spec, s) ∧
    w.suppliers[s]? = some (.network fetcher)

section

variable {w' : Intake} {fetcher : Fetcher}

theorem exists_job_of_jobSpecs {j : JobId} {s : SupplierId}
    (h : w.jobSpecs[j]? = some (spec, s)) :
    ∃ job, w.jobs[j]? = some job ∧ job.spec = spec ∧ job.supplier = s := by
  rw [jobSpecs, List.getElem?_map, Option.map_eq_some_iff] at h
  obtain ⟨job, hjob, heq⟩ := h
  exact ⟨job, hjob, congrArg Prod.fst heq, congrArg Prod.snd heq⟩

theorem NetworkRun.specOf? (h : w.NetworkRun a spec fetcher) : w.specOf? a = some spec := by
  obtain ⟨j, s, hj, hjob, -⟩ := h
  obtain ⟨job, hget, rfl, -⟩ := exists_job_of_jobSpecs hjob
  rw [Intake.specOf?, hj, Option.bind_some, hget, Option.map_some]

theorem Begins.networkRun (begins : Begins w w' a) (htidy : w.affairs.Tidy) (grows : Grows w v)
    (h : v.NetworkRun a spec fetcher) : w.NetworkRun a spec fetcher := by
  obtain ⟨j, s, hj, hjob, hsupplier⟩ := h
  obtain ⟨x, due, calledOff, hx, -⟩ := begins.exists_act htidy
  have hrole : w.role? a = some x.role := by rw [role?, hx, Option.map_some]
  have hj' : w.jobOf? a = some j := by
    rw [jobOf?, grows.role hrole] at hj
    rw [jobOf?, hrole, hj]
  obtain ⟨u, alike, heq⟩ := begins.exists_beginRun htidy hj'
  -- Without a job or a supplier nothing would have begun.
  have hstays : ¬w' = u := fun hsame => begins.phase.2 (by
    rw [hsame, affairs, alike.view]
    exact begins.phase.1)
  unfold beginRun at heq
  split at heq
  · exact absurd heq hstays
  · rename_i job hget
    split at heq
    · exact absurd heq hstays
    · rename_i supplier hsome
      have hspecs : w.jobSpecs[j]? = some (job.spec, job.supplier) := by
        rw [← alike.jobs, jobSpecs, List.getElem?_map, hget, Option.map_some]
      rw [alike.suppliers] at hsome
      have hsame := getElem?_of_prefix grows.jobs hspecs
      rw [hjob] at hsame
      cases hsame
      rw [grows.network hsome hsupplier] at hsome
      exact ⟨j, job.supplier, hj', hspecs, hsome⟩

theorem Begins.exists_request (begins : Begins w w' a) (htidy : w.affairs.Tidy)
    (h : w.NetworkRun a spec fetcher) : ∃ v, Alike (w.keep a (spec.begun w.now)) v ∧
      v.view.spec? a = some spec ∧ v.view.result? a = some (spec.begun w.now) ∧
      w' = v.request a spec (spec.begun w.now) fetcher := by
  have hs : w.view.spec? a = some spec := by rw [view_spec?, h.specOf?]
  obtain ⟨j, s, hj, hjob, hsupplier⟩ := h
  obtain ⟨u, alike, rfl⟩ := begins.exists_beginRun htidy hj
  rw [← alike.jobs] at hjob
  obtain ⟨job, hget, rfl, rfl⟩ := exists_job_of_jobSpecs hjob
  rw [← alike.suppliers] at hsupplier
  have begun := ((alike.trans (.onJob u j (f := fun job => { job with latest := some a })
    (by exact fun _ => rfl) (by exact fun _ => rfl))).keep a (job.spec.begun w.now)).trans
    (.advance _ a _)
  refine ⟨_, begun, ?_, ?_, ?_⟩
  · rw [begun.view, view_keep, View.spec?_setResult, hs]
  · rw [begun.view, view_keep, View.result?_setResult_of_spec? hs]
  · rw [beginRun, hget]
    dsimp only
    rw [hsupplier]
    unfold fetch
    rw [alike.now]

theorem endRun_leaves (w : Intake) (a : ActivityId) (outcome : RunOutcome) :
    (w.endRun a outcome).queue = w.queue ∧ (w.endRun a outcome).requests = w.requests := by
  have hclose (v : Intake) : (v.close a outcome).queue = v.queue ∧
      (v.close a outcome).requests = v.requests := by
    unfold close
    dsimp only
    split <;> exact ⟨rfl, rfl⟩
  unfold endRun release
  split
  · rename_i r _ _
    split
    · rename_i round _
      have alike := Alike.withPermits w r round.permits.release
      exact ⟨(hclose _).1.trans alike.queue, (hclose _).2.trans alike.requests⟩
    · exact hclose w
  · exact hclose w

theorem deliver_error_leaves (w : Intake) (a : ActivityId) (spec : JobSpec) (r : RunResult)
    (fault : Fault) : (w.deliver a spec r (.error fault)).queue = w.queue ∧
      (w.deliver a spec r (.error fault)).requests = w.requests := by
  have hadvance (r : RunResult) (entries : List LogEntry) (outcome : RunOutcome) :
      (((w.advance a r).log entries).endRun a outcome).queue = w.queue ∧
        (((w.advance a r).log entries).endRun a outcome).requests = w.requests := by
    have alike := Alike.advance w a r
    obtain ⟨hqueue, hrequests⟩ := endRun_leaves ((w.advance a r).log entries) a outcome
    exact ⟨hqueue.trans alike.queue, hrequests.trans alike.requests⟩
  unfold deliver
  dsimp only
  split
  · split
    · exact hadvance _ _ _
    · exact endRun_leaves w a _
  · split
    · exact hadvance _ _ _
    · exact endRun_leaves w a _

/-- A run whose URL is none fails as it begins, and asks nobody. -/
theorem Begins.of_no_target (begins : Begins w w' a) (htidy : w.affairs.Tidy)
    (h : w.NetworkRun a spec fetcher) {f : Failure}
    (htarget : Fetcher.target (.text spec.source) = .error f) :
    w'.affairs = w.affairs.set a (.ended spec ((spec.begun w.now).upon (.failure f) w.now).1
        ((spec.begun w.now).upon (.failure f) w.now).2) ∧
      w'.queue = w.queue ∧ w'.requests = w.requests := by
  obtain ⟨v, alike, hs, hr, rfl⟩ := begins.exists_request htidy h
  rw [request, htarget]
  obtain ⟨hqueue, hrequests⟩ := deliver_error_leaves v a spec (spec.begun w.now) (.failure f)
  refine ⟨?_, hqueue.trans alike.queue, hrequests.trans alike.requests⟩
  have hnow : v.now = w.now := alike.now
  rw [affairs_deliver_error hs hr, hnow, affairs, alike.view, view_keep,
    View.affairs_setResult_set]
  rfl

theorem enter_awaits (hs : w.view.spec? a = some spec) (url : String) (response : Response) :
    ((w.enter a (.onNetwork url response)).call (.move a false)).Awaits a url response := by
  obtain ⟨c, hc⟩ := View.exists_core_of_spec? hs
  refine ⟨c.role, ?_⟩
  rw [place?_eq_core, view_call, view_enter, View.setStage, View.onCore_core_self, hc]
  rfl

/-- A run makes its one request as it begins. -/
theorem Begins.of_target (begins : Begins w w' a) (htidy : w.affairs.Tidy)
    (hdeeds : w.history.deedsOf a = []) (h : w.NetworkRun a spec fetcher)
    (htarget : Fetcher.target (.text spec.source) = .ok url) :
    w'.requests = w.requests ++ [fetcher.request url spec.timeoutMs] ∧
      w'.Awaits a url ((w.web.lookup url).getD .unreachable) ∧
      Follows spec w.now url ((w.web.lookup url).getD .unreachable) w' a := by
  obtain ⟨v, alike, hs, hr, rfl⟩ := begins.exists_request htidy h
  have hweb : v.web = w.web := alike.web
  rw [request, htarget]
  dsimp only
  rw [hweb]
  refine ⟨congrArg (· ++ _) alike.requests, ?_⟩
  generalize (w.web.lookup url).getD .unreachable = response
  have awaits := enter_awaits (w := { v.log [Fetcher.announcement url] with
    requests := v.requests ++ [fetcher.request url spec.timeoutMs] }) hs url response
  refine ⟨awaits, .waits awaits ?_ ?_ ⟨false, ?_⟩⟩
  · rw [affairs, view_call, view_enter]
    have hphase := congrFun (congrArg Affairs.phase
      (View.affairs_setStage hs hr (.onNetwork url response))) a
    exact hphase.trans (set_phase_self _ _ _)
  · have hhistory : v.history = w.history := by
      have hview := congrArg View.history alike.view
      rwa [view_keep] at hview
    show v.history.deedsOf a = []
    rw [hhistory, hdeeds]
  · exact List.mem_append_right _ (List.mem_singleton_self _)

theorem Begins.leaves_of_target (begins : Begins w w' a) (htidy : w.affairs.Tidy)
    (h : w.NetworkRun a spec fetcher) (htarget : Fetcher.target (.text spec.source) = .ok url) :
    w'.queue = w.queue ∧ w'.store = w.store := by
  obtain ⟨v, alike, -, -, rfl⟩ := begins.exists_request htidy h
  have hstore : v.store = w.store := by
    have hview := congrArg View.store alike.view
    rwa [view_keep] at hview
  rw [request, htarget]
  exact ⟨alike.queue, hstore⟩

end

def ofWeb (web : List (String × Response)) (spec : JobSpec) : Intake :=
  let w := start Time.Instant.first.toDateTime (.ofCapacity 4) .unbounded web
  let w := (w.addSupplier (.network ⟨none, "reader"⟩)).1
  ((w.addJob spec 0).1.startRun 0).1

theorem reaches_ofWeb (web : List (String × Response)) (spec : JobSpec) :
    Reaches (start Time.Instant.first.toDateTime (.ofCapacity 4) .unbounded web)
      (ofWeb web spec) :=
  ((Relation.ReflTransGen.single (.addSupplier _ _)).tail (.addJob _ spec 0)).tail (.startRun _ 0)

end Intake

end FeedIntake
