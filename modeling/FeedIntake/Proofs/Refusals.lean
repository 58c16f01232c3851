import FeedIntake.Proofs.Requests

/-! # Refused fetches

A fetch that fails is told by a code, which the response to its request settles. The run accounts
for it: it does not raise, its result says which code it was and whether another try may help, and
the queue and the store are as they were.
-/

namespace FeedIntake

open Affairs
open Time (DateTime)

/-! ## Codes -/

namespace Response

/-- How a fetch fails. What is met in connecting comes before the status, and the status before what
is met in reading the body; a timeout is one whatever else it is. -/
inductive FailsWith (r : Response) : Code → Prop where
  | denied (connected : r.connectFault = none) (h : r.status = 401 ∨ r.status = 403) :
      FailsWith r .feedAccessDenied
  | missing (connected : r.connectFault = none) (h : r.status = 404) : FailsWith r .feedNotFound
  | refused (connected : r.connectFault = none) (h : 400 ≤ r.status)
      (hdenied : r.status ≠ 401 ∧ r.status ≠ 403) (hmissing : r.status ≠ 404) :
      FailsWith r .feedNetwork
  | timedOut {fault : Fault} (met : r.Meets fault) (h : fault.isTimeout = true) :
      FailsWith r .feedTimeout
  | cutOff {fault : Fault} (met : r.Meets fault) (h : fault.isTimeout = false) :
      FailsWith r .feedNetwork
  | noFeed (arrives : r.Arrives) (h : r.document.isFeed = false) : FailsWith r .feedParse
  | malformed (arrives : r.Arrives) (h : r.document.isBroken = true) : FailsWith r .feedParse

/-- All that goes wrong on the way is the transport's, and what is read as a document has a list of
entries. -/
structure IsUsual (r : Response) : Prop where
  transport : ∀ fault, r.Meets fault → fault.isTransport = true
  parsed : r.parseFault = none
  listed : r.document.listingFault = none

variable {r : Response}

theorem IsUsual.delivers (usual : r.IsUsual) (h : ∀ code, ¬r.FailsWith code) :
    r.Delivers r.document.entries := by
  rcases r.download_cases "" with ⟨arrives, -⟩ | ⟨fault, met, -⟩ | ⟨f, connected, hstatus, -, -⟩
  · have hfeed : r.document.isFeed = true := by
      by_contra hno
      exact h _ (.noFeed arrives (by simpa using hno))
    have hbroken : r.document.isBroken = false := by
      by_contra hbad
      exact h _ (.malformed arrives (by simpa using hbad))
    exact ⟨arrives, usual.parsed, hfeed, hbroken, usual.listed, rfl⟩
  · cases htimeout : fault.isTimeout with
    | true => exact absurd (.timedOut met htimeout) (h _)
    | false => exact absurd (.cutOff met htimeout) (h _)
  · by_cases hdenied : r.status = 401 ∨ r.status = 403
    · exact absurd (.denied connected hdenied) (h _)
    · by_cases hmissing : r.status = 404
      · exact absurd (.missing connected hmissing) (h _)
      · exact absurd (.refused connected hstatus (not_or.mp hdenied) hmissing) (h _)

end Response

/-- A failure of a fetch that is told by this code. -/
structure Failure.Tells (f : Failure) (code : Code) : Prop where
  feed : f.kind.isFeed = true
  code_eq : f.code = some code
  retryable : f.isRetryable = true ↔ code = .feedTimeout ∨ code = .feedNetwork

namespace Fetcher

variable {given : Value} {url : String} {timeoutMs : Int} {elapsed : Float} {r : Response}
  {code : Code}

theorem tells_of_target {f : Failure} (h : target given = .error f) : f.Tells .feedInvalidUrl := by
  unfold target at h
  split at h
  · cases h
  · cases h
    constructor <;> simp [Failure.causedBy, Failure.final, Failure.withCode, Failure.of,
      Failure.isRetryable]
    rfl

/-- Refusals of unknown cause may be worth another try, the others are not. -/
theorem tells_of_statusFailure? {f : Failure} (h : r.statusFailure? url = some f) :
    f.Tells (if r.status = 401 ∨ r.status = 403 then .feedAccessDenied
      else if r.status = 404 then .feedNotFound else .feedNetwork) := by
  unfold Response.statusFailure? Response.refusal at h
  simp only [Bool.or_eq_true, decide_eq_true_eq] at h
  split at h
  · rename_i hdenied
    cases h
    rw [if_pos hdenied]
    constructor <;> simp [Failure.final, Failure.withCode, Failure.of, Failure.isRetryable]
    rfl
  · rename_i hdenied
    rw [if_neg hdenied]
    split at h
    · rename_i hmissing
      cases h
      rw [if_pos hmissing]
      constructor <;> simp [Failure.final, Failure.withCode, Failure.of, Failure.isRetryable]
      rfl
    · rename_i hmissing
      split at h
      · cases h
        rw [if_neg hmissing]
        constructor <;> simp [Failure.of, Failure.isRetryable, FailureKind.defaultCode,
          FailureKind.defaultRecoverable]
        rfl
      · cases h

/-- A fetch ends in a failure that tells this code. -/
def FailsAs (given : Value) (url : String) (timeoutMs : Int) (elapsed : Float) (r : Response)
    (code : Code) : Prop :=
  ∃ f, (conclude given url timeoutMs elapsed r).result = .error (.failure f) ∧ f.Tells code

theorem failsAs_of_refused (connected : r.connectFault = none) (h : 400 ≤ r.status) :
    FailsAs given url timeoutMs elapsed r
      (if r.status = 401 ∨ r.status = 403 then .feedAccessDenied
        else if r.status = 404 then .feedNotFound else .feedNetwork) := by
  obtain ⟨f, heq, hrefusal⟩ := conclude_of_refused connected h
  exact ⟨f, heq, tells_of_statusFailure? hrefusal⟩

theorem failsAs_of_met (usual : r.IsUsual) {fault : Fault} (met : r.Meets fault) :
    FailsAs given url timeoutMs elapsed r
      (if fault.isTimeout then .feedTimeout else .feedNetwork) := by
  obtain ⟨f, hf, hkind, hrecoverable, hcode⟩ :=
    explain_of_transport given timeoutMs (usual.transport fault met)
  refine ⟨f, by rw [conclude_of_error (met.download url), hf], by rw [hkind]; rfl, hcode, ?_⟩
  rw [Failure.isRetryable, hrecoverable, hcode]
  split <;> simp

theorem failsAs_of_unlisted (usual : r.IsUsual) (arrives : r.Arrives)
    (h : r.document.isFeed = false ∨ r.document.isBroken = true) :
    FailsAs given url timeoutMs elapsed r .feedParse := by
  obtain ⟨reason, heq⟩ := r.document.listed_of_refused h url
  refine ⟨_, by rw [conclude_of_parsed arrives usual.parsed, heq], ?_⟩
  constructor <;> simp [Document.refusal, Failure.of, FailureKind.defaultCode, Failure.isRetryable]
  rfl

theorem failsAs_of_failsWith (usual : r.IsUsual) (h : r.FailsWith code) :
    FailsAs given url timeoutMs elapsed r code := by
  cases h with
  | denied connected h =>
      have told : FailsAs given url timeoutMs elapsed r _ :=
        failsAs_of_refused connected (by omega)
      rwa [if_pos h] at told
  | missing connected h =>
      have told : FailsAs given url timeoutMs elapsed r _ :=
        failsAs_of_refused connected (by omega)
      rwa [if_neg (by omega), if_pos h] at told
  | refused connected h hdenied hmissing =>
      have told : FailsAs given url timeoutMs elapsed r _ := failsAs_of_refused connected h
      rwa [if_neg (by omega), if_neg hmissing] at told
  | timedOut met h =>
      have told : FailsAs given url timeoutMs elapsed r _ := failsAs_of_met usual met
      rwa [if_pos h] at told
  | cutOff met h =>
      have told : FailsAs given url timeoutMs elapsed r _ := failsAs_of_met usual met
      rwa [if_neg (by rw [h]; simp)] at told
  | noFeed arrives h => exact failsAs_of_unlisted usual arrives (.inl h)
  | malformed arrives h => exact failsAs_of_unlisted usual arrives (.inr h)

end Fetcher

/-! ## What a run makes of it -/

/-- The result of a run whose fetch failed with this code. -/
structure RunResult.IsRefusal (r : RunResult) (code : Code) : Prop where
  states : r.states = [.fetching, .failed, .done]
  state : r.state = .done
  published : r.published = 0
  error : ∃ reason : String, r.error = some s!"[{code.text}] {reason}"
  retryable : r.retryable = true ↔ code = .feedTimeout ∨ code = .feedNetwork

theorem Failure.Tells.isRefusal {f : Failure} {code : Code} (tells : f.Tells code)
    (spec : JobSpec) (begun now : DateTime) : ((spec.begun begun).refuse f now).IsRefusal code where
  states := rfl
  state := rfl
  published := rfl
  error := by
    refine ⟨f.reason, ?_⟩
    show some f.message = _
    rw [message, tells.code_eq]
  retryable := tells.retryable

namespace Intake

/-- A run has ended without raising, after a fetch that failed with this code. It has left the queue
and the store alone, and has told nothing. -/
structure Refused (w w' : Intake) (a : ActivityId) (code : Code) : Prop where
  outcome : w'.outcome? a = some .done
  result : ∃ r, w'.result? a = some r ∧ r.IsRefusal code
  queue : w'.queue = w.queue
  store : w'.store = w.store
  history : w'.history = w.history

def Advances (a : ActivityId) (v v' : Intake) : Prop :=
  ∃ before calledOff after x, v.ready = before ++ .move a calledOff :: after ∧
    v.activity? a = some x ∧ (calledOff || x.stopping) = false ∧
    v' = ({ v with ready := before ++ after } : Intake).move a calledOff

/-- A run that waits for this response is due to move, and goes on as the response says. -/
structure GoesOn (v : Intake) (a : ActivityId) (response : Response) : Prop where
  due : ∃ calledOff, .move a calledOff ∈ v.ready
  refused : ∀ v' code, Advances a v v' → response.FailsWith code → Refused v v' a code
  fetched : ∀ v', Advances a v v' → (∀ code, ¬response.FailsWith code) →
    v'.history.HasFetched a (response.document.entries.map fun value => ⟨.derived, value⟩)

variable {w w' v v' : Intake} {a : ActivityId} {spec : JobSpec} {code : Code} {fetcher : Fetcher}
  {url : String} {response : Response}

theorem Refused.of_affairs {f : Failure} (tells : f.Tells code) {begun now : DateTime}
    (h : w'.affairs = w.affairs.set a (.ended spec ((spec.begun begun).upon (.failure f) now).1
      ((spec.begun begun).upon (.failure f) now).2)) (hqueue : w'.queue = w.queue) :
    Refused w w' a code := by
  have hupon : (spec.begun begun).upon (.failure f) now =
      ((spec.begun begun).refuse f now, .done) := by
    rw [RunResult.upon, if_pos tells.feed]
  rw [hupon] at h
  have hphase := congrFun (congrArg Affairs.phase h) a
  rw [set_phase_self] at hphase
  obtain ⟨-, hresult, houtcome⟩ := of_phase_ended w' a hphase
  exact {
    outcome := houtcome
    result := ⟨_, hresult, tells.isRefusal spec begun now⟩
    queue := hqueue
    store := congrArg Affairs.store h
    history := congrArg Affairs.history h }

theorem Awaits.isUnderWay (awaits : v.Awaits a url response) :
    (v.affairs.phase a).isUnderWay = false := by
  obtain ⟨role, hplace⟩ := awaits
  rw [place?_eq_core] at hplace
  obtain ⟨c, hc, heq⟩ := Option.map_eq_some_iff.mp hplace
  have hstage : c.stage = .onNetwork url response := congrArg Prod.snd heq
  cases hphase : v.affairs.phase a with
  | idle | astray | asking => rfl
  | working spec r | offering spec r | ended spec r =>
      obtain ⟨-, -, c', hc', hstanding⟩ :=
        View.of_phase (congrArg Phase.spec? hphase) (congrArg Phase.result? hphase)
      rw [hc] at hc'
      cases hc'
      have hasking : v.affairs.phase a = View.standing spec r c.stage := hstanding
      rw [hstage, hphase] at hasking
      cases hasking

theorem Follows.goesOn {begun : DateTime} (follows : Follows spec begun url response v a)
    (usual : response.IsUsual) {url' : String} {response' : Response}
    (awaits : v.Awaits a url' response') : GoesOn v a response := by
  have hwaits := awaits.isUnderWay
  cases follows with
  | took given fetched underWay =>
      rw [underWay] at hwaits
      cases hwaits
  | failed phase deeds =>
      rw [phase] at hwaits
      cases hwaits
  | waits awaits phase deeds due =>
      obtain ⟨hs, hr⟩ := of_phase_asking phase
      -- Its next move is to receive the response.
      have hmove {v' : Intake} (advances : Advances a v v') : ∃ u : Intake, u.view = v.view ∧
          u.queue = v.queue ∧
          v' = u.deliver a spec (spec.begun begun) (spec.conclusion url response) := by
        obtain ⟨before, calledOff, after, x, -, hx, hgoing, rfl⟩ := advances
        obtain ⟨x', hx', heq⟩ := awaits.move hs hr (before ++ after) calledOff
        rw [hx] at hx'
        cases hx'
        rw [heq, if_neg (by rw [hgoing]; simp)]
        exact ⟨(v.attend a (before ++ after)).log _, attend_view v a _, rfl, rfl⟩
      refine ⟨due, fun v' code advances hfails => ?_, fun v' advances hnot => ?_⟩
      · obtain ⟨u, hview, hqueue, rfl⟩ := hmove advances
        obtain ⟨f, hresult, tells⟩ : Fetcher.FailsAs (.text spec.source) url spec.timeoutMs 0
          response code := Fetcher.failsAs_of_failsWith usual hfails
        have hconclusion : spec.conclusion url response = .error (.failure f) := by
          rw [JobSpec.conclusion, hresult]
          rfl
        have hends := affairs_deliver_error (w := u) (by rw [hview, view_spec?, hs])
          (by rw [hview, view_result?, hr]) (.failure f)
        have hsame : u.affairs = v.affairs := by rw [affairs, hview, affairs]
        rw [hsame] at hends
        rw [hconclusion]
        exact .of_affairs tells hends ((deliver_error_leaves u a spec _ _).1.trans hqueue)
      · obtain ⟨u, hview, -, rfl⟩ := hmove advances
        have hconclusion : spec.conclusion url response =
            .ok (response.document.entries.map fun value => ⟨.derived, value⟩) := by
          rw [JobSpec.conclusion, Fetcher.conclude_of_delivers (usual.delivers hnot)]
          rfl
        have hhistory : u.history = v.history := congrArg View.history hview
        rw [hconclusion]
        exact (deliver_takesUp (by rw [hview, view_spec?, hs]) (by rw [hhistory, deeds]) _ _).1

/-- **Fetches that fail are told apart, and accounted for.** A run whose URL is none is refused as
it begins, and makes no request. Any other makes one, touches nothing else, and waits for the
response that is there then. Whatever happens meanwhile, it goes on as that response says: it is
refused by the code of the failure, or has the entries of the document. -/
theorem failed_fetch_accounted {now : DateTime} {queue : RecordQueue} {store : Snapshots}
    {web : List (String × Response)} (reach : Reaches (start now queue store web) w)
    (begins : Begins w w' a) (run : w.NetworkRun a spec fetcher) :
    (∀ f, Fetcher.target (.text spec.source) = .error f →
      Refused w w' a .feedInvalidUrl ∧ w'.requests = w.requests) ∧
    ∀ url response, Fetcher.target (.text spec.source) = .ok url →
      response = (w.web.lookup url).getD .unreachable →
        w'.requests = w.requests ++ [fetcher.request url spec.timeoutMs] ∧
        (w'.queue = w.queue ∧ w'.store = w.store) ∧ w'.Awaits a url response ∧
        (response.IsUsual → ∀ v url' response', Reaches w' v → v.Awaits a url' response' →
          GoesOn v a response) := by
  refine ⟨fun f htarget => ?_, ?_⟩
  · obtain ⟨haffairs, hqueue, hrequests⟩ := begins.of_no_target reach.tidy_of_start run htarget
    exact ⟨.of_affairs (Fetcher.tells_of_target htarget) haffairs hqueue, hrequests⟩
  · rintro url _ htarget rfl
    obtain ⟨hrequests, awaits, follows⟩ := begins.of_target reach.tidy_of_start
      (deedsOf_of_no_result reach.sound begins.before) run htarget
    have htidy' : w'.affairs.Tidy := Reaches.tidy_of_start (reach.tail begins.step)
    refine ⟨hrequests, begins.leaves_of_target reach.tidy_of_start run htarget, awaits,
      fun usual v _ _ hlater awaits => ?_⟩
    exact (follows.reaches hlater htidy').goesOn usual awaits

def nothingThere : Response := { (default : Response) with status := 404 }

def missingFeed : Intake :=
  ofWeb [("http://a.example/feed", nothingThere)] (.ofSource "http://a.example/feed")

theorem failed_fetch_accounted_missing : ∃ origin : Intake, Reaches origin missingFeed ∧
    Begins missingFeed missingFeed.tick 0 ∧
    missingFeed.NetworkRun 0 (.ofSource "http://a.example/feed") ⟨none, "reader"⟩ ∧
    Refused missingFeed.tick missingFeed.tick.tick 0 .feedNotFound := by
  have reach := reaches_ofWeb [("http://a.example/feed", nothingThere)]
    (.ofSource "http://a.example/feed")
  have begins : Begins missingFeed missingFeed.tick 0 :=
    ⟨.happen [] (.move 0 false) [] rfl, rfl, rfl⟩
  have run : missingFeed.NetworkRun 0 (.ofSource "http://a.example/feed") ⟨none, "reader"⟩ :=
    ⟨0, 0, rfl, rfl, rfl⟩
  have usual : nothingThere.IsUsual := by
    refine ⟨fun fault met => ?_, rfl, rfl⟩
    have hconnect : nothingThere.connectFault = none := rfl
    have hread : nothingThere.readFault = none := rfl
    cases met with
    | connecting h =>
        rw [hconnect] at h
        cases h
    | reading _ _ h =>
        rw [hread] at h
        cases h
  obtain ⟨-, -, awaits, goesOn⟩ :=
    (failed_fetch_accounted reach begins run).2 _ nothingThere rfl rfl
  have advances : Advances 0 missingFeed.tick missingFeed.tick.tick :=
    ⟨[], false, [], _, rfl, rfl, rfl, rfl⟩
  exact ⟨_, reach, begins, run,
    (goesOn usual _ _ _ .refl awaits).refused _ _ advances (.missing rfl rfl)⟩

end Intake

end FeedIntake
