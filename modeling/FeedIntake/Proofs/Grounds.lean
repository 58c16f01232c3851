import FeedIntake.Proofs.Requests

/-! # What a commit rests on

A fetch gives entries only if the status of the response is below those that are refused; which of
these it is makes no difference. So every commit of a run that asked the network rests on such a
response, the one that was there for its request when it began.
-/

namespace FeedIntake

open Affairs
open Time (DateTime)

/-! ## Statuses -/

/-- What a fetch makes of the status of the response to its request for a URL. -/
structure Fetcher.HeedsStatus (f : Fetcher) (serve : WebRequest → Response) (given : Value)
    (timeoutMs : Int) (elapsed : Float) (url : String) : Prop where
  entries : ∀ entries, (f.fetch serve given timeoutMs elapsed).2 = .ok entries →
    (serve (f.request url timeoutMs)).status < 400 ∧
      entries = (serve (f.request url timeoutMs)).document.entries
  refused : (serve (f.request url timeoutMs)).connectFault = none →
    400 ≤ (serve (f.request url timeoutMs)).status →
      ∃ failure, (f.fetch serve given timeoutMs elapsed).2 = .error (.failure failure) ∧
        failure.kind = .network
  /-- Below the statuses that are refused one is as good as another. -/
  same : ∀ status status', status < 400 → status' < 400 →
    f.fetch (fun request => { serve request with status }) given timeoutMs elapsed =
      f.fetch (fun request => { serve request with status := status' }) given timeoutMs elapsed

theorem Fetcher.heedsStatus (f : Fetcher) (serve : WebRequest → Response) {given : Value}
    (timeoutMs : Int) (elapsed : Float) {url : String} (htarget : target given = .ok url) :
    f.HeedsStatus serve given timeoutMs elapsed url := by
  have hfetch (serve : WebRequest → Response) : f.fetch serve given timeoutMs elapsed =
      ([f.request url timeoutMs],
        (conclude given url timeoutMs elapsed (serve (f.request url timeoutMs))).result) := by
    rw [fetch, htarget]
  constructor
  · intro entries hok
    rw [hfetch, conclude_eq_ok_iff] at hok
    exact ⟨hok.status, hok.all⟩
  · intro connected hstatus
    obtain ⟨failure, heq, hrefusal⟩ := conclude_of_refused connected hstatus
    exact ⟨failure, by rw [hfetch, heq], Response.kind_of_statusFailure? hrefusal⟩
  · intro status status' h h'
    rw [hfetch, hfetch, conclude_congr_status h h']

/-- A response that says that nothing has changed, with a feed in its body all the same. -/
def Response.unchanged (entries : List Value) : Response :=
  { (default : Response) with
    status := 304
    document := { (default : Document) with isFeed := true, entries } }

/-- Such a response yields entries, though it is no success. -/
theorem Fetcher.unchanged_yields_entries :
    ¬∀ (f : Fetcher) (serve : WebRequest → Response) (given : Value) (timeoutMs : Int)
        (elapsed : Float) (url : String) (entries : List Value), target given = .ok url →
      (f.fetch serve given timeoutMs elapsed).2 = .ok entries →
        200 ≤ (serve (f.request url timeoutMs)).status ∧
          (serve (f.request url timeoutMs)).status < 300 := by
  intro h
  have delivers : (Response.unchanged [.text "x"]).Delivers [.text "x"] :=
    ⟨⟨rfl, by decide, rfl⟩, rfl, rfl, rfl, rfl, rfl⟩
  have hok : ((⟨none, "reader"⟩ : Fetcher).fetch (fun _ => .unchanged [.text "x"])
      (.text "http://a.example/feed") 1000 0).2 = .ok [.text "x"] :=
    conclude_of_delivers delivers
  exact absurd (h _ _ _ _ _ _ _ rfl hok).2 (by decide)

/-! ## Commits -/

theorem JobSpec.delivers_of_conclusion {spec : JobSpec} {url : String} {response : Response}
    {entries : List Entry} (h : spec.conclusion url response = .ok entries) :
    ∃ values, response.Delivers values ∧ entries = values.map fun v => ⟨.derived, v⟩ := by
  unfold conclusion at h
  cases hresult : (Fetcher.conclude (.text spec.source) url spec.timeoutMs 0 response).result with
  | error fault =>
      rw [hresult] at h
      cases h
  | ok values =>
      rw [hresult] at h
      cases h
      exact ⟨values, Fetcher.conclude_eq_ok_iff.mp hresult, rfl⟩

namespace Intake

/-- A run began some time after the origin and is to get the response that was there then for the
URL of its source. -/
structure Served (origin v : Intake) (a : ActivityId) (spec : JobSpec) (url : String)
    (response : Response) : Prop where
  target : Fetcher.target (.text spec.source) = .ok url
  asked : ∃ w w', Reaches origin w ∧ Begins w w' a ∧ Reaches w' v ∧
    response = (w.web.lookup url).getD .unreachable

section

variable {now : DateTime} {queue : RecordQueue} {store : Snapshots}
  {web : List (String × Response)} {v : Intake} {a : ActivityId} {spec : JobSpec}
  {fetcher : Fetcher}

/-- What a network run has fetched was delivered by the response to its request. -/
theorem NetworkRun.delivered (run : v.NetworkRun a spec fetcher)
    (reach : Reaches (start now queue store web) v) {entries : List Entry}
    (hfetched : v.history.HasFetched a entries) : ∃ url response values,
      Served (start now queue store web) v a spec url response ∧ response.Delivers values ∧
        entries = values.map fun value => ⟨.derived, value⟩ := by
  obtain ⟨deeds, hdeeds⟩ := hfetched
  obtain ⟨r, hr⟩ : ∃ r, v.result? a = some r := by
    refine Option.ne_none_iff_exists'.mp fun hnone => ?_
    rw [deedsOf_of_no_result reach.sound hnone] at hdeeds
    cases hdeeds
  obtain ⟨w, w', before, begins, later⟩ := Reaches.exists_begins reach rfl (by rw [hr]; rfl)
  have after : Reaches (start now queue store web) w' := before.tail begins.step
  have run' := begins.networkRun before.tidy_of_start (Reaches.grows (later.head begins.step)) run
  have hnone := deedsOf_of_no_result before.sound begins.before
  cases htarget : Fetcher.target (.text spec.source) with
  | error f =>
      -- A run that failed as it began has done nothing.
      obtain ⟨hends, -, -⟩ := begins.of_no_target before.tidy_of_start run' htarget
      have hphase := congrFun (congrArg Affairs.phase hends) a
      rw [set_phase_self] at hphase
      have hhistory : w'.history = w.history := congrArg Affairs.history hends
      have hstill : v.history.deedsOf a = w'.history.deedsOf a :=
        (Reaches.course later after.tidy_of_start).deedsOf_of_ended hphase
      rw [hstill, hhistory, hnone] at hdeeds
      cases hdeeds
  | ok url =>
      obtain ⟨-, -, follows⟩ := begins.of_target before.tidy_of_start hnone run' htarget
      cases follows.reaches later after.tidy_of_start with
      | waits _ _ hwaits _ | failed _ hwaits =>
          rw [hwaits] at hdeeds
          cases hdeeds
      | took given fetched _ =>
          obtain ⟨deeds', hdeeds'⟩ := fetched
          rw [hdeeds] at hdeeds'
          cases hdeeds'
          obtain ⟨values, delivers, heq⟩ := JobSpec.delivers_of_conclusion given
          exact ⟨url, _, values, ⟨htarget, w, w', before, begins, later, rfl⟩, delivers, heq⟩

theorem Reaches.fetched_of_committed (reach : Reaches (start now queue store web) v)
    {job : JobSpec} {identities : List String}
    (hcommitted : .did a job (.committed identities) ∈ v.history) :
    v.specOf? a = some job ∧ ∃ entries, v.history.HasFetched a entries ∧
      identities = Snapshots.setOf (entries.map (·.identity job.source)) := by
  have sound := reach.sound
  refine ⟨specOf?_of_phase (sound.owned hcommitted), ?_⟩
  obtain ⟨later, past, hsplit⟩ := List.append_of_mem hcommitted
  obtain ⟨r, entries, trail, -, progress, -, -, hpast, hids⟩ := sound.of_committed hsplit
  refine ⟨entries, ⟨trail.deeds ++ .committed identities :: History.deedsOf later a, ?_⟩,
    hids.trans progress.seen_eq⟩
  have hhistory : v.history = later ++ .did a job (.committed identities) :: past := hsplit
  rw [hhistory, History.deedsOf_append, History.deedsOf_did_self, hpast]
  simp

end

/-- **Only a response that is not refused yields entries.** A fetch gives none for a status of 400
or more, whatever the document is, and does not tell the others apart. So whatever a network run
commits rests on a response with such a status. -/
theorem entries_of_unrefused (fetcher : Fetcher) :
    (∀ (serve : WebRequest → Response) (given : Value) (timeoutMs : Int) (elapsed : Float)
        (url : String), Fetcher.target given = .ok url →
          fetcher.HeedsStatus serve given timeoutMs elapsed url) ∧
      ∀ (now : DateTime) (queue : RecordQueue) (store : Snapshots) (web : List (String × Response))
        (v : Intake), Reaches (start now queue store web) v →
        ∀ (a : ActivityId) (spec : JobSpec), v.NetworkRun a spec fetcher →
          ∀ (job : JobSpec) (identities : List String),
            .did a job (.committed identities) ∈ v.history → ∃ url response values,
              Served (start now queue store web) v a spec url response ∧
              response.status < 400 ∧ response.Delivers values ∧
              identities = Snapshots.setOf (values.map fun value =>
                (Entry.mk .derived value).identity spec.source) := by
  refine ⟨fun serve given timeoutMs elapsed url htarget =>
    fetcher.heedsStatus serve timeoutMs elapsed htarget, ?_⟩
  intro now queue store web v reach a spec run job identities hcommitted
  obtain ⟨hjob, entries, hfetched, hids⟩ := reach.fetched_of_committed hcommitted
  have hsame : some job = some spec := hjob.symm.trans run.specOf?
  cases hsame
  obtain ⟨url, response, values, served, delivers, rfl⟩ := run.delivered reach hfetched
  refine ⟨url, response, values, served, delivers.status, delivers, ?_⟩
  rw [hids, List.map_map]
  rfl

def unchangedRead : Intake :=
  ticks 2 (ofWeb [("http://a.example/feed", .unchanged [.dict [("id", .text "x")]])]
    (.ofSource "http://a.example/feed"))

theorem entries_of_unrefused_unchanged : ∃ (origin : Intake) (url : String) (response : Response)
    (values : List Value), Reaches origin unchangedRead ∧
      unchangedRead.NetworkRun 0 (.ofSource "http://a.example/feed") ⟨none, "reader"⟩ ∧
      .did 0 (.ofSource "http://a.example/feed") (.committed ["x"]) ∈ unchangedRead.history ∧
      Served origin unchangedRead 0 (.ofSource "http://a.example/feed") url response ∧
      response.status < 400 ∧ response.Delivers values := by
  have reach := (reaches_ofWeb [("http://a.example/feed", .unchanged [.dict [("id", .text "x")]])]
    (.ofSource "http://a.example/feed")).trans (ticks_reaches 2 _)
  have run : unchangedRead.NetworkRun 0 (.ofSource "http://a.example/feed") ⟨none, "reader"⟩ :=
    ⟨0, 0, rfl, rfl, rfl⟩
  have hcommitted : .did 0 (.ofSource "http://a.example/feed") (.committed ["x"]) ∈
      unchangedRead.history := .head _
  obtain ⟨url, response, values, served, hstatus, delivers, -⟩ :=
    (entries_of_unrefused ⟨none, "reader"⟩).2 _ _ _ _ _ reach 0 _ run _ _ hcommitted
  exact ⟨_, url, response, values, reach, run, hcommitted, served, hstatus, delivers⟩

end Intake

end FeedIntake
