import FeedIntake.Intake.Setup
import FeedIntake.Proofs.Answers
import FeedIntake.Proofs.Apart
import FeedIntake.Proofs.Fetching
import FeedIntake.Proofs.Inquiries
import FeedIntake.Proofs.Margins
import FeedIntake.Proofs.Refusals
import FeedIntake.Proofs.SettingsBounds
import FeedIntake.Proofs.Sifting
import FeedIntake.Proofs.SourceLists

/-! # Valid sources

A URL is checked when a round is set up or when settings are read, and again when it is fetched.
Every check strips it first and looks at nothing but what is left. What was stripped is not stripped
further, so a URL that has passed once passes every time, as the text that it is. Under this text a
feed is asked for, and under the same text its records are told and remembered.
-/

namespace FeedIntake

open Affairs
open Time (DateTime)

namespace Url

/-! ## One URL -/

/-- A text that names a scheme for feeds and a host. -/
def Locates (u : String) : Prop :=
  ∃ parts, split u.toList = .ok parts ∧ parts.scheme ∈ allowedSchemes ∧
    parts.authority.isEmpty = false

theorem not_locates_empty : ¬Locates "" := by
  rintro ⟨parts, hsplit, hscheme, -⟩
  cases hsplit
  exact absurd hscheme (by decide)

/-- A value is accepted if it is a text that locates a feed once it is stripped. -/
theorem validate_eq_ok_iff {url : Value} {u : String} :
    validate url = .ok u ↔ ∃ s, url = .text s ∧ u = Text.strip s ∧ Locates u := by
  constructor
  · intro h
    cases url with
    | text s =>
        simp only [validate, validateText] at h
        split at h
        · cases h
        · split at h
          · cases h
          · rename_i parts hsplit
            split at h
            · cases h
            · split at h
              · cases h
              · rename_i hscheme hhost
                cases h
                exact ⟨s, rfl, rfl, parts, hsplit, by simpa using hscheme, by simpa using hhost⟩
    | _ => cases h
  · rintro ⟨s, rfl, rfl, locates⟩
    have hne : s.isEmpty = false := by
      cases hempty : s.isEmpty with
      | false => rfl
      | true =>
          rw [String.isEmpty_iff.mp hempty] at locates
          exact absurd locates not_locates_empty
    obtain ⟨parts, hsplit, hscheme, hhost⟩ := locates
    simp [validate, validateText, hne, hsplit, hscheme, hhost]

theorem validate_of_ok {url : Value} {u : String} (h : validate url = .ok u) :
    validate (.text u) = .ok u := by
  obtain ⟨s, -, rfl, locates⟩ := validate_eq_ok_iff.mp h
  exact validate_eq_ok_iff.mpr ⟨_, rfl, (Text.strip_strip s).symm, locates⟩

/-! ## Lists of URLs -/

/-- A list is refused at the first URL that is none, and for what is wrong with that one. The
induction is on the URLs that are still to be checked. -/
theorem foldlM_keep_eq_error_iff {urls : List Value} {kept : List String} {fault : UrlFault} :
    urls.foldlM keep kept = .error fault ↔ ∃ before url after, urls = before ++ url :: after ∧
      (∀ v ∈ before, ∃ u, validate v = .ok u) ∧ validate url = .error fault := by
  induction urls generalizing kept with
  | nil =>
      refine iff_of_false (fun h => by cases h) ?_
      rintro ⟨before, url, after, heq, -⟩
      simp at heq
  | cons first rest ih =>
      rw [List.foldlM_cons]
      cases hvalid : validate first with
      | error raised =>
          rw [keep_of_error hvalid]
          constructor
          · intro h
            cases h
            exact ⟨[], first, rest, rfl, by simp, hvalid⟩
          · rintro ⟨before, url, after, heq, haccepted, hurl⟩
            cases before with
            | nil =>
                cases heq
                cases hvalid.symm.trans hurl
                rfl
            | cons v before =>
                cases heq
                obtain ⟨u, hu⟩ := haccepted first List.mem_cons_self
                rw [hvalid] at hu
                cases hu
      | ok checked =>
          rw [keep_of_ok hvalid]
          refine ih.trans ⟨?_, ?_⟩
          · rintro ⟨before, url, after, rfl, haccepted, hurl⟩
            exact ⟨first :: before, url, after, rfl,
              List.forall_mem_cons.mpr ⟨⟨checked, hvalid⟩, haccepted⟩, hurl⟩
          · rintro ⟨before, url, after, heq, haccepted, hurl⟩
            cases before with
            | nil =>
                cases heq
                rw [hvalid] at hurl
                cases hurl
            | cons v before =>
                cases heq
                exact ⟨before, url, after, rfl, (List.forall_mem_cons.mp haccepted).2, hurl⟩

theorem eraseDups_concat (xs : List String) (x : String) :
    (xs ++ [x]).eraseDups = if x ∈ xs then xs.eraseDups else xs.eraseDups ++ [x] := by
  rw [List.eraseDups_append]
  by_cases hmem : x ∈ xs <;> simp [hmem, List.removeAll, List.eraseDups_cons]

theorem eraseDups_of_nodup {xs : List String} (h : xs.Nodup) : xs.eraseDups = xs := by
  induction xs using List.reverseRecOn with
  | nil => rfl
  | append_singleton xs x ih =>
      obtain ⟨hnodup, -, hnew⟩ := List.nodup_append.mp h
      have hmem : x ∉ xs := fun hx => hnew x hx x List.mem_cons_self rfl
      rw [eraseDups_concat, if_neg hmem, ih hnodup]

/-- Of texts that are all accepted each is kept where it stands first. The induction is on the last
of them. -/
theorem validateAll_of_texts {texts : List String}
    (h : ∀ s ∈ texts, validate (.text s) = .ok (Text.strip s)) :
    validateAll (texts.map .text) = .ok (texts.map Text.strip).eraseDups := by
  rw [validateAll_eq]
  induction texts using List.reverseRecOn with
  | nil => rfl
  | append_singleton texts s ih =>
      have hlast := h s (by simp)
      have hbefore : ∀ t ∈ texts, validate (.text t) = .ok (Text.strip t) :=
        fun t ht => h t (by simp [ht])
      rw [List.map_append, List.foldlM_append, ih hbefore, List.map_append]
      show keep _ (.text s) >>= pure = Except.ok (_ ++ [Text.strip s]).eraseDups
      rw [keep_of_ok hlast, eraseDups_concat]
      simp only [List.mem_eraseDups]
      rfl

theorem validateAll_eq_ok_iff {urls : List Value} {out : List String} :
    validateAll urls = .ok out ↔ ∃ texts : List String, urls = texts.map .text ∧
      (∀ s ∈ texts, validate (.text s) = .ok (Text.strip s)) ∧
      out = (texts.map Text.strip).eraseDups := by
  constructor
  · intro h
    have hchecked : ∀ url ∈ urls, ∃ s, url = .text s ∧ validate (.text s) = .ok (Text.strip s) := by
      intro url hurl
      obtain ⟨u, -, hvalid⟩ := (lists_of_validateAll h).checked url hurl
      obtain ⟨s, rfl, rfl, -⟩ := validate_eq_ok_iff.mp hvalid
      exact ⟨s, rfl, hvalid⟩
    choose! textOf htext haccepted using hchecked
    have htexts : urls = (urls.map textOf).map .text := by
      rw [List.map_map]
      exact (List.map_id urls).symm.trans (List.map_congr_left htext)
    have hall : ∀ s ∈ urls.map textOf, validate (.text s) = .ok (Text.strip s) :=
      List.forall_mem_map.mpr haccepted
    refine ⟨urls.map textOf, htexts, hall, ?_⟩
    have hout := validateAll_of_texts hall
    rw [← htexts, h] at hout
    exact Except.ok.inj hout
  · rintro ⟨texts, rfl, hall, rfl⟩
    exact validateAll_of_texts hall

/-- A list of sources is one that a list of URLs was checked to be. -/
def AreSources (sources : List String) : Prop := ∃ urls, validateAll urls = .ok sources

theorem AreSources.validate {sources : List String} (h : AreSources sources) {u : String}
    (hu : u ∈ sources) : Url.validate (.text u) = .ok u := by
  obtain ⟨urls, hsources⟩ := h
  rcases (lists_of_validateAll hsources).only u hu with hnone | ⟨url, -, hurl⟩
  · cases hnone
  · exact validate_of_ok hurl

theorem AreSources.validateAll {sources : List String} (h : AreSources sources) :
    Url.validateAll (sources.map .text) = .ok sources := by
  have hstrip : ∀ u ∈ sources, Text.strip u = u := by
    intro u hu
    obtain ⟨s, heq, hu, -⟩ := validate_eq_ok_iff.mp (h.validate hu)
    cases heq
    exact hu.symm
  obtain ⟨urls, hsources⟩ := h
  have hsame : sources.map Text.strip = sources :=
    (List.map_congr_left hstrip).trans (List.map_id sources)
  rw [validateAll_of_texts fun u hu => ?_, hsame, eraseDups_of_nodup (validateAll_nodup hsources)]
  rw [hstrip u hu]
  exact AreSources.validate ⟨urls, hsources⟩ hu

end Url

/-! ## Where sources come from -/

theorem RoundSpec.sources_of_ofGiven {settings : Settings} {sources : List Value}
    {since : Option DateTime} {timeoutMs : Option Int} {perpetual : Option Bool}
    {limit : Option Int} {supplier : SupplierId} {round : RoundSpec}
    (h : RoundSpec.ofGiven settings sources since timeoutMs perpetual limit supplier = .ok round) :
    Url.validateAll sources = .ok round.sources := by
  unfold ofGiven at h
  cases hurls : Url.validateAll sources with
  | error fault =>
      rw [hurls] at h
      cases h
  | ok urls =>
      rw [hurls] at h
      cases h
      rfl

namespace Settings

theorem sources_of_known {fields : Fields} {s : Settings} (h : known fields = .ok s) :
    sourcesIn fields = .ok s.sources := by
  simp only [known, Checked.seq_eq_ok_iff, Except.ok.injEq] at h
  obtain ⟨_, debug, ⟨_, version, ⟨_, name, ⟨_, sources, ⟨_, log, ⟨_, memory, ⟨_, reading, rfl,
    -, rfl⟩, -, rfl⟩, -, rfl⟩, hsources, rfl⟩, -, rfl⟩, -, rfl⟩, -, rfl⟩ := h
  exact hsources

theorem areSources_of_sourcesIn {fields : Fields} {sources : List String}
    (h : sourcesIn fields = .ok sources) : Url.AreSources sources := by
  unfold sourcesIn at h
  dsimp only at h
  split at h
  · cases h
    exact ⟨[], rfl⟩
  · obtain ⟨texts, -, h⟩ := exists_of_bind_eq_ok h
    split at h
    · rename_i urls hurls
      cases h
      exact ⟨_, hurls⟩
    · cases h
  · cases h

theorem areSources_of_read {env : Environment} {given : Fields} {s : Settings}
    (h : read env given = .ok s) : Url.AreSources s.sources := by
  obtain ⟨fields, hknown⟩ := exists_known_of_read h
  exact areSources_of_sourcesIn (sources_of_known hknown)

end Settings

/-- A URL that a round or the settings have accepted as one of their sources. -/
inductive Url.Accepted (u : String) : Prop where
  | byRound {settings : Settings} {urls : List Value} {since : Option DateTime}
      {timeoutMs : Option Int} {perpetual : Option Bool} {limit : Option Int}
      {supplier : SupplierId} {round : RoundSpec}
      (h : RoundSpec.ofGiven settings urls since timeoutMs perpetual limit supplier = .ok round)
      (hu : u ∈ round.sources)
  | bySettings {env : Environment} {given : Fields} {settings : Settings}
      (h : Settings.read env given = .ok settings) (hu : u ∈ settings.sources)

theorem Url.Accepted.validate {u : String} (accepted : Url.Accepted u) :
    Url.validate (.text u) = .ok u := by
  cases accepted with
  | byRound h hu => exact AreSources.validate ⟨_, RoundSpec.sources_of_ofGiven h⟩ hu
  | bySettings h hu => exact (Settings.areSources_of_read h).validate hu

/-! ## Fetching them -/

namespace Fetcher

theorem target_of_validate {u : String} (h : Url.validate (.text u) = .ok u) :
    target (.text u) = .ok u := by
  rw [target, h]

variable {given : Value} {url : String} {timeoutMs : Int} {elapsed : Float} {r : Response}
  {f : Failure}

/-- No fetch that has made its request says itself that its URL is none. -/
theorem letsOut_of_invalidUrl
    (h : (conclude given url timeoutMs elapsed r).result = .error (.failure f))
    (hcode : f.code = some .feedInvalidUrl) : r.LetsOut (.failure f) := by
  rcases r.download_cases url with ⟨arrives, -⟩ | ⟨fault, met, hdownload⟩ |
    ⟨refused, -, -, hrefusal, hdownload⟩
  · cases hparsed : r.parseFault with
    | some fault =>
        rw [conclude_of_parseFault arrives hparsed] at h
        cases h
        exact .parsing arrives hparsed
    | none =>
        rw [conclude_of_parsed arrives hparsed] at h
        rcases r.document.entriesOf_cases url with ⟨hfeed, hbroken, -⟩ | ⟨hrefused, -⟩
        · rw [Document.listed_of_feed hfeed hbroken] at h
          cases hlisted : r.document.listingFault with
          | some fault =>
              rw [hlisted] at h
              cases h
              exact .listing arrives hparsed hfeed hbroken hlisted
          | none =>
              rw [hlisted] at h
              cases h
        · obtain ⟨reason, heq⟩ := r.document.listed_of_refused hrefused url
          rw [heq] at h
          cases h
          simp [Document.refusal, Failure.of, FailureKind.defaultCode] at hcode
  · rw [conclude_of_error hdownload] at h
    cases htransport : fault.isTransport with
    | false =>
        rw [explain_of_foreign htransport] at h
        cases h
        exact .transport met htransport
    | true =>
        obtain ⟨told, htold, -, -, hother⟩ := explain_of_transport given timeoutMs htransport
        rw [htold] at h
        cases h
        rw [hother] at hcode
        split at hcode <;> cases hcode
  · rw [conclude_of_error hdownload, explain_of_foreign rfl] at h
    cases h
    have hother := (tells_of_statusFailure? hrefusal).code_eq
    rw [hcode] at hother
    split at hother
    · cases hother
    · split at hother <;> cases hother

end Fetcher

/-! ## Running over them -/

namespace Intake

/-- A run goes by one text, whatever happens around it. -/
structure GoesBy (origin : Intake) (store : Snapshots) (w : Intake) (a : ActivityId)
    (spec : JobSpec) (fetcher : Fetcher) (u : String) : Prop where
  /-- It is not refused, but asks for the feed under this text as it begins. -/
  asks : ∃ before after, Reaches origin before ∧ Begins before after a ∧ Reaches after w ∧
    after.requests = before.requests ++ [fetcher.request u spec.timeoutMs] ∧
    after.Awaits a u ((before.web.lookup u).getD .unreachable)
  /-- Of all requests this is the only one that it has made. -/
  asksOnce : ∃ made, w.Attributes made ∧ (a, fetcher.request u spec.timeoutMs) ∈ made
  tells : ∀ record ∈ w.history.recordsPutBy a, record.source = u
  /-- What it leaves out was remembered under this text. -/
  recalls : ∀ later past job record,
    w.history = later ++ .did a job (.judged record .repeated) :: past →
      (History.replay store past).seenBefore u record.identity = true
  remembers : ∀ later past job identities,
    w.history = later ++ .did a job (.committed identities) :: past →
      History.replay store (.did a job (.committed identities) :: past) =
        (History.replay store past).commit u identities

variable {now : DateTime} {queue : RecordQueue} {store : Snapshots} {web : List (String × Response)}
  {w : Intake} {a : ActivityId} {spec : JobSpec} {fetcher : Fetcher}

theorem Reaches.eq_of_did (reach : Reaches (start now queue store web) w)
    (hspec : w.specOf? a = some spec) {job : JobSpec} {deed : Deed}
    (hdid : .did a job deed ∈ w.history) : job = spec := by
  have hjob := specOf?_of_phase (reach.sound.owned hdid)
  rw [hspec] at hjob
  exact (Option.some.inj hjob).symm

theorem Reaches.goesBy (reach : Reaches (start now queue store web) w)
    (hvalid : Url.validate (.text spec.source) = .ok spec.source)
    (run : w.NetworkRun a spec fetcher) (hbegun : (w.result? a).isSome = true) :
    GoesBy (start now queue store web) store w a spec fetcher spec.source := by
  obtain ⟨before, after, hbefore, begins, hafter⟩ := reach.exists_begins rfl hbegun
  have htidy := hbefore.tidy_of_start
  have htidy' := Reaches.tidy_of_start (hbefore.tail begins.step)
  have run' := begins.networkRun htidy (Reaches.grows (hafter.head begins.step)) run
  have htarget := Fetcher.target_of_validate hvalid
  obtain ⟨hrequests, awaits, -⟩ :=
    begins.of_target htidy (deedsOf_of_no_result hbefore.sound begins.before) run' htarget
  constructor
  case asks => exact ⟨before, after, hbefore, begins, hafter, hrequests, awaits⟩
  case asksOnce =>
    obtain ⟨made, earlier⟩ := (attributes_start now queue store web).reaches hbefore
      (Reaches.tidy_of_start .refl)
    obtain ⟨more, later⟩ := (earlier.begin begins run' (requestFor_of_target htarget fetcher)
      hrequests).reaches hafter htidy'
    exact ⟨_, later, by simp⟩
  case tells =>
    intro record hmem
    obtain ⟨job, hjob, hsource⟩ := source_of_recordPutBy reach.sound reach.tidy_of_start hmem
    rw [run.specOf?] at hjob
    cases hjob
    exact hsource
  case recalls =>
    intro later past job record hsplit
    obtain rfl := reach.eq_of_did run.specOf? (hsplit ▸ List.mem_append_right _ List.mem_cons_self)
    exact (JobSpec.judge_eq_repeated.mp (reach.sound.judged hsplit).symm).2.2
  case remembers =>
    intro later past job identities hsplit
    obtain rfl := reach.eq_of_did run.specOf? (hsplit ▸ List.mem_append_right _ List.mem_cons_self)
    rfl

/-- **Checked sources are stable.** A list of URLs is refused for what is wrong with the first that
is none. Otherwise its texts are kept, stripped, each where it stands first, and to check them again
changes nothing. A fetch of a URL that a round or the settings have accepted asks for it, and never
says itself that it is none; a run over it asks once, and it asks, tells its records and remembers
them under this one text. -/
theorem checked_sources_stable (urls : List Value) :
    (∀ fault, Url.validateAll urls = .error fault ↔ ∃ before url after,
      urls = before ++ url :: after ∧ (∀ v ∈ before, ∃ u, Url.validate v = .ok u) ∧
        Url.validate url = .error fault) ∧
    (∀ out, Url.validateAll urls = .ok out ↔ ∃ texts : List String, urls = texts.map .text ∧
      (∀ s ∈ texts, Url.validate (.text s) = .ok (Text.strip s)) ∧
      out = (texts.map Text.strip).eraseDups) ∧
    (∀ out, Url.validateAll urls = .ok out → (∀ u ∈ out, Url.validate (.text u) = .ok u) ∧
      Url.validateAll (out.map .text) = .ok out) ∧
    ∀ u, Url.Accepted u →
      (∀ (f : Fetcher) (serve : WebRequest → Response) (timeoutMs : Int) (elapsed : Float),
        (f.fetch serve (.text u) timeoutMs elapsed).1 = [f.request u timeoutMs] ∧
        ∀ failure : Failure,
          (f.fetch serve (.text u) timeoutMs elapsed).2 = .error (.failure failure) →
            failure.code = some .feedInvalidUrl →
              (serve (f.request u timeoutMs)).LetsOut (.failure failure)) ∧
      ∀ now queue store web w a spec fetcher, Reaches (start now queue store web) w →
        w.NetworkRun a spec fetcher → spec.source = u → (w.result? a).isSome = true →
          GoesBy (start now queue store web) store w a spec fetcher u := by
  refine ⟨fun fault => Url.foldlM_keep_eq_error_iff, fun out => Url.validateAll_eq_ok_iff,
    fun out h => ?_, fun u accepted => ⟨fun f serve timeoutMs elapsed => ?_, ?_⟩⟩
  · have sources : Url.AreSources out := ⟨urls, h⟩
    exact ⟨fun u hu => sources.validate hu, sources.validateAll⟩
  · rw [Fetcher.fetch, Fetcher.target_of_validate accepted.validate]
    exact ⟨rfl, fun failure hresult hcode => Fetcher.letsOut_of_invalidUrl hresult hcode⟩
  · rintro now queue store web w a spec fetcher reach run rfl hbegun
    exact reach.goesBy accepted.validate run hbegun

/-- One URL given twice, once with blanks around it. A tab within it is not one of them. -/
def givenTwice : List Value := [.text " http://a.example/a\tb\n", .text "http://a.example/a\tb"]

def onceTaken : RoundSpec :=
  ⟨["http://a.example/a\tb"], Time.Instant.first.toDateTime, 10000, false, 0, 5⟩

theorem ofGiven_givenTwice :
    RoundSpec.ofGiven .standard givenTwice none none none none 0 = .ok onceTaken := rfl

/-- The one source of the round is asked for as it stands there. -/
theorem checked_sources_stable_givenTwice :
    Url.validateAll (onceTaken.sources.map .text) = .ok onceTaken.sources ∧
      ∃ w, w.NetworkRun 0 (onceTaken.jobFor .first "http://a.example/a\tb") ⟨none, "reader"⟩ ∧
        GoesBy (start Time.Instant.first.toDateTime (.ofCapacity 4) .unbounded []) .unbounded w 0
          (onceTaken.jobFor .first "http://a.example/a\tb") ⟨none, "reader"⟩
          "http://a.example/a\tb" := by
  obtain ⟨-, -, hstable, hgoes⟩ := checked_sources_stable givenTwice
  have run : (ticks 1 (ofWeb [] (onceTaken.jobFor .first "http://a.example/a\tb"))).NetworkRun 0
      (onceTaken.jobFor .first "http://a.example/a\tb") ⟨none, "reader"⟩ := ⟨0, 0, rfl, rfl, rfl⟩
  refine ⟨(hstable _ rfl).2, _, run, ?_⟩
  exact (hgoes _ (.byRound ofGiven_givenTwice List.mem_cons_self)).2 _ _ _ _ _ 0 _ _
    ((reaches_ofWeb [] _).trans (ticks_reaches 1 _)) run rfl rfl

end Intake

end FeedIntake
