import FeedIntake.Feed.Fetcher

/-! # What a fetch comes to

A fetch gives the entries of a document as a whole or nothing at all. It asks at most once, and what
it comes to is settled by the response alone. Faults of the transport and refusals are told as
failures of the network, documents that are none as failures of the format. Whatever else goes wrong
on the way is let out as it is.
-/

namespace FeedIntake

/-! ## Failures -/

namespace Failure

variable (f : Failure) (subject : Value)

theorem about_eq : ∃ context, f.about subject = { f with context } := by
  unfold about
  split
  · split
    · exact ⟨_, rfl⟩
    · exact ⟨_, rfl⟩
  · exact ⟨_, rfl⟩

@[simp] theorem kind_about : (f.about subject).kind = f.kind := by
  obtain ⟨_, heq⟩ := f.about_eq subject
  rw [heq]

@[simp] theorem code_about : (f.about subject).code = f.code := by
  obtain ⟨_, heq⟩ := f.about_eq subject
  rw [heq]

@[simp] theorem reason_about : (f.about subject).reason = f.reason := by
  obtain ⟨_, heq⟩ := f.about_eq subject
  rw [heq]

@[simp] theorem recoverable_about : (f.about subject).recoverable = f.recoverable := by
  obtain ⟨_, heq⟩ := f.about_eq subject
  rw [heq]

end Failure

namespace Fault

def isTransport : Fault → Bool
  | failure _ => false
  | outside kind _ => kind.isTimeout || kind.isTransport

def isTimeout : Fault → Bool
  | failure _ => false
  | outside kind _ => kind.isTimeout

/-- Whether this is one of the two kinds of failure that a fetch is said to end in. -/
def IsOfFetch (fault : Fault) : Prop :=
  ∃ f, fault = .failure f ∧ (f.kind = .network ∨ f.kind = .format)

end Fault

/-! ## The way of a response -/

namespace Response

variable {r : Response} {url : String} {fault : Fault}

/-- The body has come, and no status says that it is not the one asked for. -/
structure Arrives (r : Response) : Prop where
  connected : r.connectFault = none
  status : r.status < 400
  read : r.readFault = none

/-- What goes wrong with the transport: with the connection, or with a body that is to be read. -/
inductive Meets (r : Response) (fault : Fault) : Prop where
  | connecting (h : r.connectFault = some fault)
  | reading (connected : r.connectFault = none) (status : r.status < 400)
      (h : r.readFault = some fault)

/-- A document has come that is a feed and whose entries can be listed. -/
structure Delivers (r : Response) (entries : List Value) : Prop extends Arrives r where
  parsed : r.parseFault = none
  isFeed : r.document.isFeed = true
  wellFormed : r.document.isBroken = false
  listed : r.document.listingFault = none
  all : entries = r.document.entries

/-- What goes wrong and is not told as a failure. -/
inductive LetsOut (r : Response) (fault : Fault) : Prop where
  | transport (met : r.Meets fault) (foreign : fault.isTransport = false)
  | parsing (arrives : r.Arrives) (h : r.parseFault = some fault)
  | listing (arrives : r.Arrives) (parsed : r.parseFault = none)
      (isFeed : r.document.isFeed = true) (wellFormed : r.document.isBroken = false)
      (h : r.document.listingFault = some fault)

/-- The smallest of the statuses that are refused by name is above the bound of the others. -/
theorem statusFailure?_eq_none_iff : r.statusFailure? url = none ↔ r.status < 400 := by
  unfold statusFailure?
  simp only [Bool.or_eq_true, decide_eq_true_eq]
  split
  · simp only [reduceCtorEq, false_iff]
    omega
  · split
    · simp only [reduceCtorEq, false_iff]
      omega
    · split <;> simp <;> omega

theorem kind_of_statusFailure? {f : Failure} (h : r.statusFailure? url = some f) :
    f.kind = .network := by
  unfold statusFailure? refusal at h
  split at h
  · cases h
    simp [Failure.final, Failure.withCode, Failure.of]
  · split at h
    · cases h
      simp [Failure.final, Failure.withCode, Failure.of]
    · split at h
      · cases h
        simp [Failure.of]
      · cases h

/-- A download ends with the body, with what the transport met, or with a refusal. -/
theorem download_cases (r : Response) (url : String) :
    (r.Arrives ∧ r.download url = .ok ()) ∨
      (∃ fault, r.Meets fault ∧ r.download url = .error fault) ∨
      (∃ f, r.connectFault = none ∧ 400 ≤ r.status ∧ r.statusFailure? url = some f ∧
        r.download url = .error (.failure f)) := by
  unfold download
  cases hconnect : r.connectFault with
  | some fault => exact .inr (.inl ⟨fault, .connecting hconnect, rfl⟩)
  | none =>
      cases hstatus : r.statusFailure? url with
      | some f =>
          have hrefused : ¬r.status < 400 := fun h => by
            rw [statusFailure?_eq_none_iff.mpr h] at hstatus
            cases hstatus
          exact .inr (.inr ⟨f, rfl, by omega, rfl, rfl⟩)
      | none =>
          have hbelow := statusFailure?_eq_none_iff.mp hstatus
          cases hread : r.readFault with
          | some fault => exact .inr (.inl ⟨fault, .reading hconnect hbelow hread, rfl⟩)
          | none => exact .inl ⟨⟨hconnect, hbelow, hread⟩, rfl⟩

theorem Arrives.download (h : r.Arrives) (url : String) : r.download url = .ok () := by
  unfold Response.download
  rw [h.connected, statusFailure?_eq_none_iff.mpr h.status, h.read]

theorem Meets.download (h : r.Meets fault) (url : String) : r.download url = .error fault := by
  unfold Response.download
  cases h with
  | connecting h => rw [h]
  | reading connected status h => rw [connected, statusFailure?_eq_none_iff.mpr status, h]

end Response

namespace Document

variable {d : Document} {url : String}

theorem entriesOf_cases (d : Document) (url : String) :
    (d.isFeed = true ∧ d.isBroken = false ∧ d.entriesOf url = .ok d.entries) ∨
      ((d.isFeed = false ∨ d.isBroken = true) ∧
        ∃ reason, d.entriesOf url = .error (refusal url reason)) := by
  unfold entriesOf
  dsimp only
  cases hfeed : d.isFeed with
  | false => exact .inr ⟨.inl rfl, _, rfl⟩
  | true =>
      cases hbroken : d.isBroken with
      | true => exact .inr ⟨.inr rfl, _, rfl⟩
      | false => exact .inl ⟨rfl, rfl, rfl⟩

theorem listed_of_feed (hfeed : d.isFeed = true) (hbroken : d.isBroken = false) :
    d.listed url = match d.listingFault with
      | some fault => .error fault
      | none => .ok d.entries := by
  have hentries : d.entriesOf url = .ok d.entries := by simp [entriesOf, hfeed, hbroken]
  unfold listed
  rw [hentries]
  cases d.listingFault <;> rfl

theorem listed_of_refused (h : d.isFeed = false ∨ d.isBroken = true) (url : String) :
    ∃ reason, d.listed url = .error (.failure (refusal url reason)) := by
  rcases d.entriesOf_cases url with ⟨hfeed, hbroken, -⟩ | ⟨-, reason, heq⟩
  · simp [hfeed, hbroken] at h
  · exact ⟨reason, by rw [listed, heq]⟩

end Document

/-! ## The end of a fetch -/

namespace Fetcher

variable {given : Value} {url : String} {timeoutMs : Int} {elapsed : Float} {r : Response}
  {fault : Fault}

theorem explain_of_foreign (h : fault.isTransport = false) :
    explain given timeoutMs fault = fault := by
  cases fault with
  | failure f => rfl
  | outside kind text =>
      simp only [Fault.isTransport, Bool.or_eq_false_iff] at h
      simp [explain, h]

/-- A fault of the transport is told as a failure that may be worth another try. -/
theorem explain_of_transport (given : Value) (timeoutMs : Int) (h : fault.isTransport = true) :
    ∃ f, explain given timeoutMs fault = .failure f ∧ f.kind = .network ∧ f.recoverable = true ∧
      f.code = some (if fault.isTimeout then .feedTimeout else .feedNetwork) := by
  cases fault with
  | failure f => cases h
  | outside kind text =>
      unfold explain Fault.isTimeout
      dsimp only
      by_cases htimeout : kind.isTimeout = true
      · rw [if_pos htimeout, if_pos htimeout]
        refine ⟨_, rfl, ?_⟩
        simp [Failure.causedBy, Failure.withCode, Failure.of, FailureKind.defaultRecoverable]
      · have htransport : kind.isTransport = true := by
          simpa [Fault.isTransport, htimeout] using h
        rw [if_neg htimeout, if_neg htimeout, if_pos htransport]
        refine ⟨_, rfl, ?_⟩
        simp [Failure.causedBy, Failure.of, FailureKind.defaultRecoverable, FailureKind.defaultCode]

theorem conclude_of_error (h : r.download url = .error fault) :
    (conclude given url timeoutMs elapsed r).result = .error (explain given timeoutMs fault) := by
  unfold conclude
  dsimp only
  rw [h]

theorem conclude_of_parseFault (arrives : r.Arrives) (h : r.parseFault = some fault) :
    (conclude given url timeoutMs elapsed r).result = .error fault := by
  unfold conclude
  dsimp only
  rw [arrives.download, h]

theorem conclude_of_parsed (arrives : r.Arrives) (parsed : r.parseFault = none) :
    (conclude given url timeoutMs elapsed r).result = r.document.listed url := by
  unfold conclude
  dsimp only
  rw [arrives.download, parsed]
  dsimp only
  split <;> rename_i heq <;> exact heq.symm

theorem conclude_of_delivers {entries : List Value} (h : r.Delivers entries) :
    (conclude given url timeoutMs elapsed r).result = .ok entries := by
  rw [conclude_of_parsed h.toArrives h.parsed, Document.listed_of_feed h.isFeed h.wellFormed,
    h.listed, h.all]

theorem conclude_of_letsOut (h : r.LetsOut fault) :
    (conclude given url timeoutMs elapsed r).result = .error fault := by
  cases h with
  | transport met foreign => rw [conclude_of_error (met.download url), explain_of_foreign foreign]
  | parsing arrives h => exact conclude_of_parseFault arrives h
  | listing arrives parsed isFeed wellFormed h =>
      rw [conclude_of_parsed arrives parsed, Document.listed_of_feed isFeed wellFormed, h]

theorem conclude_cases (given : Value) (url : String) (timeoutMs : Int) (elapsed : Float)
    (r : Response) :
    (∃ entries, r.Delivers entries) ∨ (∃ fault, r.LetsOut fault) ∨
      ∃ fault, fault.IsOfFetch ∧
        (conclude given url timeoutMs elapsed r).result = .error fault := by
  rcases r.download_cases url with ⟨arrives, -⟩ | ⟨fault, met, hdownload⟩ |
    ⟨f, -, -, hrefusal, hdownload⟩
  · cases hparsed : r.parseFault with
    | some fault => exact .inr (.inl ⟨fault, .parsing arrives hparsed⟩)
    | none =>
        rcases r.document.entriesOf_cases url with ⟨hfeed, hbroken, -⟩ | ⟨hrefused, -⟩
        · cases hlisted : r.document.listingFault with
          | some fault =>
              exact .inr (.inl ⟨fault, .listing arrives hparsed hfeed hbroken hlisted⟩)
          | none => exact .inl ⟨_, arrives, hparsed, hfeed, hbroken, hlisted, rfl⟩
        · obtain ⟨reason, heq⟩ := r.document.listed_of_refused hrefused url
          refine .inr (.inr ⟨_, ⟨Document.refusal url reason, rfl, .inr ?_⟩, ?_⟩)
          · simp [Document.refusal, Failure.of]
          · rw [conclude_of_parsed arrives hparsed, heq]
  · cases htransport : fault.isTransport with
    | false => exact .inr (.inl ⟨fault, .transport met htransport⟩)
    | true =>
        obtain ⟨f, hf, hkind, -⟩ := explain_of_transport given timeoutMs htransport
        exact .inr (.inr ⟨_, ⟨f, rfl, .inl hkind⟩, by rw [conclude_of_error hdownload, hf]⟩)
  · refine .inr (.inr ⟨_, ⟨f, rfl, .inl (Response.kind_of_statusFailure? hrefusal)⟩, ?_⟩)
    rw [conclude_of_error hdownload, explain_of_foreign rfl]

/-- A fetch comes through exactly if a document is delivered, with all entries of it. -/
theorem conclude_eq_ok_iff {entries : List Value} :
    (conclude given url timeoutMs elapsed r).result = .ok entries ↔ r.Delivers entries := by
  refine ⟨fun h => ?_, conclude_of_delivers⟩
  rcases conclude_cases given url timeoutMs elapsed r with
    ⟨delivered, delivers⟩ | ⟨fault, letsOut⟩ | ⟨fault, -, heq⟩
  · rw [conclude_of_delivers delivers] at h
    cases h
    exact delivers
  · rw [conclude_of_letsOut letsOut] at h
    cases h
  · rw [heq] at h
    cases h

/-! ## Whole fetches -/

/-- A fetch from its beginning to its end, if every request is served: the requests that it makes,
and what comes of it. -/
def fetch (f : Fetcher) (serve : WebRequest → Response) (given : Value) (timeoutMs : Int)
    (elapsed : Float) : List WebRequest × Except Fault (List Value) :=
  match target given with
  | .error failure => ([], .error (refusal given failure))
  | .ok url =>
      let request := f.request url timeoutMs
      ([request], (conclude given url timeoutMs elapsed (serve request)).result)

theorem kind_of_target {failure : Failure} (h : target given = .error failure) :
    failure.kind = .network := by
  unfold target at h
  split at h
  · cases h
  · cases h
    simp [Failure.causedBy, Failure.final, Failure.withCode, Failure.of]

/-- Whatever a fetch is given and however its request is served, it gives all entries of a document
that was delivered, ends in a failure of the network or of the format, or lets out just what the
transport, the reader of documents or the listing of entries raised. What is no URL is refused, or
cannot be told. -/
theorem fetch_all_or_nothing (f : Fetcher) (serve : WebRequest → Response) (given : Value)
    (timeoutMs : Int) (elapsed : Float) :
    match target given with
    | .error failure => failure.kind = .network ∧ f.fetch serve given timeoutMs elapsed =
        ([], .error (if given.isWritable then .failure failure else .tooLong))
    | .ok url => ∃ result,
        f.fetch serve given timeoutMs elapsed = ([f.request url timeoutMs], result) ∧
          (∀ entries, result = .ok entries ↔ (serve (f.request url timeoutMs)).Delivers entries) ∧
          (∀ fault, (serve (f.request url timeoutMs)).LetsOut fault → result = .error fault) ∧
          ∀ fault, result = .error fault →
            fault.IsOfFetch ∨ (serve (f.request url timeoutMs)).LetsOut fault := by
  cases htarget : target given with
  | error failure =>
      refine ⟨kind_of_target htarget, ?_⟩
      rw [fetch, htarget]
      rfl
  | ok url =>
      refine ⟨_, by rw [fetch, htarget], fun _ => conclude_eq_ok_iff,
        fun _ => conclude_of_letsOut, fun fault hfault => ?_⟩
      rcases conclude_cases given url timeoutMs elapsed (serve (f.request url timeoutMs)) with
        ⟨entries, delivers⟩ | ⟨raised, letsOut⟩ | ⟨told, hfetch, heq⟩
      · rw [conclude_of_delivers delivers] at hfault
        cases hfault
      · rw [conclude_of_letsOut letsOut] at hfault
        cases hfault
        exact .inr letsOut
      · rw [heq] at hfault
        cases hfault
        exact .inl hfetch

/-- A fault of the host that is met in connecting is no failure of a fetch, and is let out. -/
theorem host_fault_let_out :
    ¬∀ (f : Fetcher) (serve : WebRequest → Response) (given : Value) (timeoutMs : Int)
        (elapsed : Float),
      (∃ request, (f.fetch serve given timeoutMs elapsed).2 =
        .ok (serve request).document.entries) ∨
      ∃ fault, (f.fetch serve given timeoutMs elapsed).2 = .error fault ∧ fault.IsOfFetch := by
  intro h
  rcases h ⟨none, "reader"⟩
      (fun _ => { (default : Response) with connectFault := some (.outside .runtime "boom") })
      (.text "http://a.example/feed") 1000 0 with ⟨_, hok⟩ | ⟨fault, hfault, f, rfl, -⟩
  · cases hok
  · cases hfault

/-! ## Statuses -/

theorem conclude_congr_status {status status' : Int} (h : status < 400) (h' : status' < 400) :
    conclude given url timeoutMs elapsed { r with status } =
      conclude given url timeoutMs elapsed { r with status := status' } := by
  have hdownload : ({ r with status } : Response).download url =
      ({ r with status := status' } : Response).download url := by
    unfold Response.download
    rw [Response.statusFailure?_eq_none_iff.mpr h, Response.statusFailure?_eq_none_iff.mpr h']
  unfold conclude
  rw [hdownload]

theorem conclude_of_refused (connected : r.connectFault = none) (h : 400 ≤ r.status) :
    ∃ f, (conclude given url timeoutMs elapsed r).result = .error (.failure f) ∧
      r.statusFailure? url = some f := by
  rcases r.download_cases url with ⟨arrives, -⟩ | ⟨fault, met, -⟩ | ⟨f, -, -, hrefusal, heq⟩
  · exact absurd arrives.status (by omega)
  · cases met with
    | connecting hmet =>
        rw [connected] at hmet
        cases hmet
    | reading _ hstatus _ => exact absurd hstatus (by omega)
  · exact ⟨f, by rw [conclude_of_error heq, explain_of_foreign rfl], hrefusal⟩

end Fetcher

end FeedIntake
