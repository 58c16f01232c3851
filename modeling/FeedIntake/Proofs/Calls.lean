import FeedIntake.Proofs.JsonText
import FeedIntake.Proofs.Sessions

/-! # How calls end

A fetch that has settings and a logbook ends by its exit code, with what it shows: its round comes
through, and its records are told one by one as they were taken. The one failure that no call tells
is that of the settings of a fetch, which are read before anything is looked after. What the console
refuses to show, and a record that cannot be written, end a call too, as faults of others.
-/

namespace FeedIntake

open Intake
open Time (DateTime Instant)

namespace CommandLine

section

variable {console : Console} {s s' : Session} {world : Surroundings} {settings : Settings}
  {debug : Bool} {o : FetchOptions}

/-! ## Reports -/

namespace Report

/-- A call ends by its exit code, and nothing escapes it. -/
structure Ends (report : Report) (code : Nat) : Prop where
  exitCode : report.exitCode = code
  escape : report.escape = none

theorem on_of_shown {r : Report} (h : ∀ shown ∈ r.shown, console.refusal? shown = none) :
    r.on console = r := by
  rcases console.upToFault_display r.shown with ⟨-, heq⟩ |
    ⟨before, shown, after, kind, text, hshown, -, hrefused, -⟩
  · rw [on, heq]
  · rw [h shown (by simp [hshown])] at hrefused
    cases hrefused

theorem on_of_refused {r : Report} (h : ¬∀ shown ∈ r.shown, console.refusal? shown = none) :
    ∃ before shown after kind text, r.shown = before ++ shown :: after ∧
      (∀ earlier ∈ before, console.refusal? earlier = none) ∧
      console.refusal? shown = some (kind, text) ∧
      r.on console = { r with
        exitCode := 1, shown := before, escape := some (.fault (.outside kind text)) } := by
  rcases console.upToFault_display r.shown with ⟨hall, -⟩ |
    ⟨before, shown, after, kind, text, hshown, hbefore, hrefused, heq⟩
  · exact absurd hall h
  · exact ⟨before, shown, after, kind, text, hshown, hbefore, hrefused, by rw [on, heq]⟩

theorem escape_of_on {r : Report} {f : Failure}
    (h : (r.on console).escape = some (.fault (.failure f))) :
    r.escape = some (.fault (.failure f)) := by
  by_cases hall : ∀ shown ∈ r.shown, console.refusal? shown = none
  · rwa [on_of_shown hall] at h
  · obtain ⟨before, shown, after, kind, text, -, -, -, heq⟩ := on_of_refused hall
    rw [heq] at h
    cases h

theorem output_on (r : Report) : (r.on console).output = r.output := by
  unfold on
  split <;> rfl

/-- What is told of a round that was to be collected. -/
def ofIntake (o : FetchOptions) (w : Intake) : Report :=
  match w.roundOutcome? 0, w.rounds[0]? with
  | some .done, some round => roundReport o round.results w.taken
  | some (.failed fault), _ => faultReport fault
  | _, _ => .ofEscape (.fault (.outside .cancelled ""))

end Report

theorem runFetch_of_prepared (world : Surroundings) {sources : List String}
    {since : Option DateTime} {spec : RoundSpec} {store : Snapshots}
    (hsince : sinceOf o = .ok since)
    (hprepared : prepareRound s settings o sources since = .ok (spec, store)) :
    ∃ errors requests, (runFetch s world settings o sources).1 =
      { Report.ofIntake o (collect settings world spec store).1 with errors, requests } := by
  unfold runFetch
  rw [hsince]
  dsimp only
  rw [hprepared]
  exact ⟨_, _, rfl⟩

theorem faultReport_escape_ne (fault : Fault) (f : Failure) :
    (faultReport fault).escape ≠ some (.fault (.failure f)) := by
  cases fault <;> simp [faultReport, Report.exit, Report.ofEscape]

theorem faultReport_exitCode (fault : Fault) : (faultReport fault).exitCode = 1 := by
  cases fault <;> rfl

/-- What a fetch is to write can be written. -/
def FetchOptions.Writes (o : FetchOptions) (records : List Record) : Prop :=
  o.json = true → ∀ record ∈ records, record.toValue.isWritable

/-- A line for every record, up to the first that cannot be written. -/
def recordLines (records : List Record) : List String :=
  (records.takeWhile fun record => record.toValue.isWritable).map fun record =>
    record.toValue.json

theorem writeRecords_eq (records : List Record) : writeRecords records = (recordLines records,
    if records.all fun record => record.toValue.isWritable then none else some .tooLong) :=
  upToFault_eq_takeWhile (fun _ => rfl) records

/-- A round is told by its exit code, or its records cannot be written. -/
theorem roundReport_cases (o : FetchOptions) (results : List RunResult) (records : List Record) :
    (o.Writes records ∧ (roundReport o results records).Ends
        (if results.any (·.success) then 0 else 1)) ∨
      (¬o.Writes records ∧ (roundReport o results records).exitCode = 1 ∧
        (roundReport o results records).escape = some (.fault .tooLong)) := by
  unfold roundReport
  rw [writeRecords_eq]
  cases hjson : o.json with
  | false => exact .inl ⟨fun h => by simp [hjson] at h, rfl, rfl⟩
  | true =>
      cases hall : records.all fun record => record.toValue.isWritable with
      | true => exact .inl ⟨fun _ => List.all_eq_true.mp hall, rfl, rfl⟩
      | false =>
          refine .inr ⟨fun h => ?_, rfl, rfl⟩
          rw [List.all_eq_true.mpr (h hjson)] at hall
          cases hall

theorem output_roundReport (hjson : o.json = true) (results : List RunResult)
    (records : List Record) : (roundReport o results records).output = recordLines records := by
  unfold roundReport
  rw [writeRecords_eq, hjson]
  cases records.all fun record => record.toValue.isWritable <;> rfl

namespace Report

variable {w : Intake}

/-- The cases are the ways in which the round may have ended. -/
theorem ofIntake_cases (o : FetchOptions) (w : Intake) :
    (∃ round, w.roundOutcome? 0 = some .done ∧ w.rounds[0]? = some round ∧
        ofIntake o w = roundReport o round.results w.taken) ∨
      w.roundOutcome? 0 ≠ some .done ∧ (ofIntake o w).exitCode = 1 ∧
        ∀ f, (ofIntake o w).escape ≠ some (.fault (.failure f)) := by
  unfold ofIntake
  split
  · rename_i round hdone hround
    exact .inl ⟨round, hdone, hround, rfl⟩
  · rename_i fault hfailed
    refine .inr ⟨?_, faultReport_exitCode fault, faultReport_escape_ne fault⟩
    rw [hfailed]
    simp
  · rename_i hnot
    refine .inr ⟨fun hdone => ?_, rfl, fun f h => by cases h⟩
    cases hround : w.rounds[0]? with
    | none =>
        rw [roundOutcome?, hround] at hdone
        cases hdone
    | some round => exact hnot round hdone hround

theorem ofIntake_exitCode_le (o : FetchOptions) (w : Intake) : (ofIntake o w).exitCode ≤ 1 := by
  rcases ofIntake_cases o w with ⟨round, -, -, heq⟩ | ⟨-, hcode, -⟩
  · rw [heq]
    rcases roundReport_cases o round.results w.taken with ⟨-, ends⟩ | ⟨-, hcode, -⟩
    · rw [ends.exitCode]
      split <;> decide
    · rw [hcode]
  · rw [hcode]

theorem ofIntake_exitCode_eq_zero_iff (o : FetchOptions) (w : Intake) :
    (ofIntake o w).exitCode = 0 ↔ w.roundOutcome? 0 = some .done ∧ o.Writes w.taken ∧
      ∃ round result, w.rounds[0]? = some round ∧ result ∈ round.results ∧
        result.success = true := by
  rcases ofIntake_cases o w with ⟨round, hdone, hround, heq⟩ | ⟨hnot, hcode, -⟩
  · have honly (p : RunResult → Prop) : (∃ round' result, w.rounds[0]? = some round' ∧
        result ∈ round'.results ∧ p result) ↔ ∃ result ∈ round.results, p result := by
      rw [hround]
      constructor
      · rintro ⟨_, result, ⟨⟩, hmem, h⟩
        exact ⟨result, hmem, h⟩
      · rintro ⟨result, hmem, h⟩
        exact ⟨round, result, rfl, hmem, h⟩
    rw [heq, honly, ← List.any_eq_true]
    rcases roundReport_cases o round.results w.taken with ⟨hwrites, ends⟩ | ⟨hnot, hcode, -⟩
    · rw [ends.exitCode]
      split <;> simp [*]
    · rw [hcode]
      exact iff_of_false (by decide) fun h => hnot h.2.1
  · rw [hcode]
    exact iff_of_false (by decide) fun h => hnot h.1

end Report

/-- Once settings are there, no failure escapes a fetch. -/
theorem runFetch_escape_ne (s : Session) (world : Surroundings) (settings : Settings)
    (o : FetchOptions) (sources : List String) (f : Failure) :
    (runFetch s world settings o sources).1.escape ≠ some (.fault (.failure f)) := by
  cases hsince : sinceOf o with
  | error fault =>
      rw [runFetch, hsince]
      simp [Report.ofRefusal, Report.exit]
  | ok since =>
      cases hprepared : prepareRound s settings o sources since with
      | error fault =>
          rw [runFetch, hsince]
          dsimp only
          rw [hprepared]
          exact faultReport_escape_ne fault f
      | ok prepared =>
          obtain ⟨spec, store⟩ := prepared
          obtain ⟨errors, requests, hreport⟩ := runFetch_of_prepared world hsince hprepared
          rw [hreport]
          show (Report.ofIntake o _).escape ≠ _
          generalize (collect settings world spec store).1 = w
          rcases Report.ofIntake_cases o w with ⟨round, -, -, heq⟩ | ⟨-, -, hne⟩
          · rw [heq]
            rcases roundReport_cases o round.results w.taken with ⟨-, ends⟩ | ⟨-, -, hescape⟩
            · simp [ends.escape]
            · simp [hescape, Fault.tooLong]
          · exact hne f

/-- What a fetch comes to that has settings and a logbook, on a console that shows all of it. -/
structure Session.FetchAnswered (s : Session) (world : Surroundings) (settings : Settings)
    (o : FetchOptions) (report : Report) : Prop where
  /-- There is nothing to fetch, or the threshold cannot be read. -/
  usage : report.exitCode = 2 ↔ o.asked settings = [] ∨ ∃ fault, sinceOf o = .error fault
  /-- A round was made and finished and could be written, and one of its runs was a success. -/
  success : report.exitCode = 0 ↔ ∃ spec store w, s.Gathers world settings o spec store w ∧
    w.roundOutcome? 0 = some .done ∧ o.Writes w.taken ∧ ∃ round result,
      w.rounds[0]? = some round ∧ result ∈ round.results ∧ result.success = true
  bounded : report.exitCode ≤ 2
  /-- A round is made when all that is asked for are URLs. -/
  gathers : o.asked settings ≠ [] → (∃ since, sinceOf o = .ok since) →
    ((∃ spec store w, s.Gathers world settings o spec store w) ↔
      ∀ url ∈ o.asked settings, ∃ checked, Url.validateText url = .ok checked)
  /-- Where nothing is called off, the round comes through. -/
  comesThrough : (∀ entry ∈ world.web, entry.2.Uncancelled) →
    ∀ spec store w, s.Gathers world settings o spec store w → ∃ since,
      thresholdOf spec.since = .ok since ∧ w.CollectsAll store
        (spec.sources.map (spec.jobFor since))
        ((Supplier.network settings.fetcher).answerFor (world.webFor spec)) ∧
      w.taken = w.history.recordsPut
  /-- Nothing escapes then but that a record cannot be written. -/
  escapes : (∀ entry ∈ world.web, entry.2.Uncancelled) →
    (report.escape = none ∧ ∀ spec store w, s.Gathers world settings o spec store w →
      o.Writes w.taken) ∨
    (report.escape = some (.fault .tooLong) ∧ ∃ spec store w,
      s.Gathers world settings o spec store w ∧ ¬o.Writes w.taken)

namespace Session.FetchAnswered

theorem not_usage {since : Option DateTime} (hasked : o.asked settings ≠ [])
    (hsince : sinceOf o = .ok since) :
    ¬(o.asked settings = [] ∨ ∃ fault, sinceOf o = .error fault) := by
  rintro (hnil | ⟨fault, hfault⟩)
  · exact hasked hnil
  · rw [hsince] at hfault
    cases hfault

/-- A fetch that makes no round was asked wrongly, or for something that is no URL. -/
theorem of_noRound {report : Report} {code : Nat} (ends : report.Ends code) (hpos : 1 ≤ code)
    (hle : code ≤ 2) (hnone : ∀ spec store w, ¬s.Gathers world settings o spec store w)
    (husage : code = 2 ↔ o.asked settings = [] ∨ ∃ fault, sinceOf o = .error fault)
    (hinvalid : o.asked settings ≠ [] → (∃ since, sinceOf o = .ok since) →
      ∃ url ∈ o.asked settings, ∃ fault, Url.validateText url = .error fault) :
    s.FetchAnswered world settings o report where
  usage := by rwa [ends.exitCode]
  success := by
    rw [ends.exitCode]
    refine iff_of_false (by omega) ?_
    rintro ⟨spec, store, w, gathers, -⟩
    exact hnone spec store w gathers
  bounded := by rwa [ends.exitCode]
  gathers := fun hasked hsince => by
    refine iff_of_false ?_ fun hvalid => ?_
    · rintro ⟨spec, store, w, gathers⟩
      exact hnone spec store w gathers
    · obtain ⟨url, hurl, fault, hfault⟩ := hinvalid hasked hsince
      obtain ⟨checked, hchecked⟩ := hvalid url hurl
      rw [hchecked] at hfault
      cases hfault
  comesThrough := fun _ spec store w gathers => absurd gathers (hnone spec store w)
  escapes := fun _ =>
    .inl ⟨ends.escape, fun spec store w gathers => absurd gathers (hnone spec store w)⟩

theorem of_usage {report : Report}
    (husage : o.asked settings = [] ∨ ∃ fault, sinceOf o = .error fault) (ends : report.Ends 2) :
    s.FetchAnswered world settings o report := by
  refine of_noRound ends (by decide) (by decide) ?_ (iff_of_true rfl husage) ?_
  · rintro spec store w ⟨hasked, ⟨since, hsince, -⟩, -⟩
    exact not_usage hasked hsince husage
  · rintro hasked ⟨since, hsince⟩
    exact absurd husage (not_usage hasked hsince)

theorem of_refused {since : Option DateTime} {f : Failure} (hasked : o.asked settings ≠ [])
    (hsince : sinceOf o = .ok since)
    (hrefused : prepareRound s settings o (o.asked settings) since = .error (.failure f))
    (hinvalid : ∃ url ∈ o.asked settings, ∃ fault, Url.validateText url = .error fault) :
    s.FetchAnswered world settings o (runFetch s world settings o (o.asked settings)).1 := by
  have hreport : (runFetch s world settings o (o.asked settings)).1 =
      .exit 1 [.text (failureLines "" f)] := by
    unfold runFetch
    rw [hsince]
    dsimp only
    rw [hrefused]
    rfl
  have ends : (Report.exit 1 [.text (failureLines "" f)]).Ends 1 := ⟨rfl, rfl⟩
  rw [hreport]
  refine of_noRound ends le_rfl (by decide) ?_
    (iff_of_false (by decide) (not_usage hasked hsince)) fun _ _ => hinvalid
  rintro spec store w ⟨-, ⟨since', hsince', hprepared⟩, -⟩
  rw [hsince] at hsince'
  cases hsince'
  rw [hrefused] at hprepared
  cases hprepared

theorem of_prepared (fits : settings.Fits) {since : Option DateTime} {urls : List String}
    {store : Snapshots} (hasked : o.asked settings ≠ []) (hsince : sinceOf o = .ok since)
    (hurls : Url.validateAll ((o.asked settings).map .text) = .ok urls)
    (hprepared : prepareRound s settings o (o.asked settings) since =
      .ok (o.roundFor settings since urls, store)) :
    s.FetchAnswered world settings o (runFetch s world settings o (o.asked settings)).1 := by
  obtain ⟨errors, requests, hreport⟩ := runFetch_of_prepared world hsince hprepared
  rw [hreport]
  have made : s.Gathers world settings o (o.roundFor settings since urls) store
      (collect settings world (o.roundFor settings since urls) store).1 :=
    ⟨hasked, ⟨since, hsince, hprepared⟩, rfl⟩
  have honly {spec : RoundSpec} {store' : Snapshots} {w : Intake}
      (h : s.Gathers world settings o spec store' w) :
      w = (collect settings world (o.roundFor settings since urls) store).1 :=
    (h.unique made).2.2
  generalize (collect settings world (o.roundFor settings since urls) store).1 = w at made honly
  have hle := Report.ofIntake_exitCode_le o w
  exact {
    usage := by
      refine iff_of_false (fun h => ?_) (not_usage hasked hsince)
      have h2 : (Report.ofIntake o w).exitCode = 2 := h
      omega
    success := by
      refine (Report.ofIntake_exitCode_eq_zero_iff o w).trans ⟨fun h => ⟨_, _, w, made, h⟩, ?_⟩
      rintro ⟨spec, store', w', gathers, h⟩
      rw [← honly gathers]
      exact h
    bounded := Nat.le_succ_of_le hle
    gathers := fun _ _ => by
      refine iff_of_true ⟨_, _, w, made⟩ fun url hurl => ?_
      obtain ⟨u, -, hu⟩ := (Url.lists_of_validateAll hurls).checked (.text url)
        (List.mem_map_of_mem hurl)
      exact ⟨u, hu⟩
    comesThrough := fun hweb spec store' w' gathers => gathers.collectsAll fits hweb
    escapes := fun hweb => by
      obtain ⟨threshold, -, all, -⟩ := made.collectsAll fits hweb
      show ((Report.ofIntake o w).escape = none ∧ _) ∨ ((Report.ofIntake o w).escape = _ ∧ _)
      rcases Report.ofIntake_cases o w with ⟨round, -, -, heq⟩ | ⟨hnot, -⟩
      · rw [heq]
        rcases roundReport_cases o round.results w.taken with ⟨hwrites, ends⟩ |
          ⟨hnot, -, hescape⟩
        · refine .inl ⟨ends.escape, fun spec store' w' gathers => ?_⟩
          rwa [honly gathers]
        · exact .inr ⟨hescape, _, _, w, made, hnot⟩
      · exact absurd all.done hnot }

end Session.FetchAnswered

/-- **A fetch that has settings and a logbook ends by its exit code.** -/
theorem runFetch_answered (fits : settings.Fits) (hasked : o.asked settings ≠ []) :
    s.FetchAnswered world settings o (runFetch s world settings o (o.asked settings)).1 := by
  cases hsince : sinceOf o with
  | error fault =>
      have hreport : (runFetch s world settings o (o.asked settings)).1 =
          .ofRefusal ⟨fetchSpec, fault⟩ := by
        rw [runFetch, hsince]
      rw [hreport]
      exact .of_usage (.inr ⟨fault, hsince⟩) ⟨rfl, rfl⟩
  | ok since =>
      rcases prepareRound_cases fits s o (o.asked settings) since with
        ⟨u, hrefused, hinvalid⟩ | ⟨urls, store, hurls, hprepared⟩
      · exact .of_refused hasked hsince hrefused hinvalid
      · exact .of_prepared fits hasked hsince hurls hprepared

/-- **What a fetch writes.** The records of its round, in the order in which they were taken. -/
theorem runFetch_output {spec : RoundSpec} {store : Snapshots} {w : Intake}
    (gathers : s.Gathers world settings o spec store w) (hdone : w.roundOutcome? 0 = some .done)
    (hjson : o.json = true) :
    (runFetch s world settings o (o.asked settings)).1.output = recordLines w.taken := by
  obtain ⟨-, ⟨since, hsince, hprepared⟩, rfl⟩ := gathers
  obtain ⟨errors, requests, hreport⟩ := runFetch_of_prepared world hsince hprepared
  rw [hreport]
  show (Report.ofIntake o _).output = _
  rcases Report.ofIntake_cases o (collect settings world spec store).1 with
    ⟨round, -, -, heq⟩ | ⟨hnot, -⟩
  · rw [heq, output_roundReport hjson]
  · exact absurd hdone hnot

theorem plain_recordLines (records : List Record) :
    ∀ line ∈ recordLines records, Text.Plain line.toList := by
  intro line hline
  obtain ⟨record, -, rfl⟩ := List.mem_map.mp hline
  exact Value.plain_json _

theorem checkConfig_ends (world : Surroundings)
    (hopening : s.console.refusal? checkOpening = none) :
    (checkConfig s world).1.escape = none ∧ (checkConfig s world).1.exitCode ≤ 1 ∧
      ((checkConfig s world).1.exitCode = 0 ↔ ∃ loaded, s.load world = .ok loaded) := by
  unfold checkConfig
  rw [hopening, if_neg (by simp)]
  cases s.load world with
  | error f => exact ⟨rfl, Nat.le_refl 1, iff_of_false (by simp [Report.exit]) (by simp)⟩
  | ok loaded => exact ⟨rfl, Nat.zero_le 1, iff_of_true rfl ⟨loaded, rfl⟩⟩

/-- All that a check shows comes after its opening, and nothing escapes it by itself. -/
theorem checkConfig_shown (s : Session) (world : Surroundings) :
    checkOpening ∈ (checkConfig s world).1.shown ∧ (checkConfig s world).1.escape = none := by
  unfold checkConfig
  split
  · exact ⟨List.mem_cons_self, rfl⟩
  · cases s.load world <;> exact ⟨List.mem_cons_self, rfl⟩

theorem fetch_escape_iff (s : Session) (world : Surroundings) (debug : Bool) (o : FetchOptions)
    (f : Failure) : (fetch s world debug o).1.escape = some (.fault (.failure f)) ↔
      s.load world = .error f := by
  rw [fetch_eq]
  rcases s.setUp_cases world debug with ⟨g, hload, heq⟩ | ⟨settings, s₁, s₂, hload, -, h⟩
  · rw [heq, hload]
    simp [Report.ofEscape]
  · rw [hload]
    refine iff_of_false ?_ (by simp)
    rcases h with ⟨fault, heq⟩ | heq
    · rw [heq]
      simp [Report.ofEscape]
    · rw [heq]
      dsimp only
      split
      · simp [Report.exit]
      · exact runFetch_escape_ne s₂ world settings o _ f

/-- The console shows all that a call gives it to show. -/
def Session.Shows (s : Session) (world : Surroundings) (arguments : List String) : Prop :=
  ∀ shown ∈ (answer s world arguments).1.shown, s.console.refusal? shown = none

theorem call_of_shows {arguments : List String} (h : s.Shows world arguments) :
    (call s world arguments).1 = (answer s world arguments).1 :=
  Report.on_of_shown h

/-- What a call comes to. -/
structure Session.CallAnswered (s : Session) (world : Surroundings) (arguments : List String)
    (report : Report) : Prop where
  /-- The one failure that escapes is that of the settings of a fetch. -/
  failure : ∀ f, report.escape = some (.fault (.failure f)) ↔
    (∃ debug o, readOrder arguments = .ok (.fetch debug o)) ∧ s.load world = .error f
  refused : ∀ refusal, readOrder arguments = .error refusal → report.Ends 2
  helped : ∀ page, readOrder arguments = .ok (.help page) → report.Ends 0
  /-- What the console refuses to show ends the call, as a fault of its own. -/
  unshown : ¬s.Shows world arguments → report.exitCode = 1 ∧ ∃ before shown after kind text,
    (answer s world arguments).1.shown = before ++ shown :: after ∧ report.shown = before ∧
      (∀ earlier ∈ before, s.console.refusal? earlier = none) ∧
      s.console.refusal? shown = some (kind, text) ∧
      report.escape = some (.fault (.outside kind text))
  checked : s.Shows world arguments → readOrder arguments = .ok .checkConfig →
    report.escape = none ∧ report.exitCode ≤ 1 ∧
      (report.exitCode = 0 ↔ ∃ loaded, s.load world = .ok loaded)
  /-- A fetch without settings or a logbook ends by what went wrong. -/
  unready : ∀ debug o escape s', readOrder arguments = .ok (.fetch debug o) →
    s.setUp world debug = (.error escape, s') →
      report.exitCode = 1 ∧ report.escape = some escape
  fetched : s.Shows world arguments → ∀ debug o settings s',
    readOrder arguments = .ok (.fetch debug o) → s.setUp world debug = (.ok settings, s') →
      s'.FetchAnswered world settings o report
  /-- A line for every record taken, up to one that cannot be written, and no line break in it. -/
  lines : ∀ debug o settings s' spec store w, readOrder arguments = .ok (.fetch debug o) →
    s.setUp world debug = (.ok settings, s') → s'.Gathers world settings o spec store w →
      w.roundOutcome? 0 = some .done → o.json = true →
        report.output = recordLines w.taken ∧ ∀ line ∈ report.output, Text.Plain line.toList

/-- Nothing but the settings of a fetch fails as a failure, whatever there is to show. -/
theorem answer_escape_iff (s : Session) (world : Surroundings) (arguments : List String)
    (f : Failure) : (answer s world arguments).1.escape = some (.fault (.failure f)) ↔
      (∃ debug o, readOrder arguments = .ok (.fetch debug o)) ∧ s.load world = .error f := by
  unfold answer
  cases readOrder arguments with
  | error refusal => simp [Report.ofRefusal, Report.exit]
  | ok order =>
      cases order with
      | help page => simp [carryOut, Report.exit]
      | checkConfig => simp [carryOut, (checkConfig_shown s world).2]
      | fetch debug o => simp [carryOut, fetch_escape_iff]

theorem answer_of_fetch {arguments : List String} (h : readOrder arguments = .ok (.fetch debug o)) :
    answer s world arguments = fetch s world debug o := by
  rw [answer, h]
  rfl

theorem fetch_of_unready {escape : Escape} (h : s.setUp world debug = (.error escape, s')) :
    (fetch s world debug o).1 = .ofEscape escape := by
  rw [fetch_eq, h]

theorem fetch_of_ready (h : s.setUp world debug = (.ok settings, s'))
    (hasked : o.asked settings ≠ []) :
    fetch s world debug o = runFetch s' world settings o (o.asked settings) := by
  rw [fetch_eq, h]
  exact if_neg (by simpa using hasked)

theorem fetch_answered (fits : settings.Fits) (h : s.setUp world debug = (.ok settings, s')) :
    s'.FetchAnswered world settings o (fetch s world debug o).1 := by
  by_cases hasked : o.asked settings = []
  · rw [fetch_eq, h]
    simp only [hasked, List.isEmpty_nil, if_true]
    exact .of_usage (.inl hasked) ⟨rfl, rfl⟩
  · rw [fetch_of_ready h hasked]
    exact runFetch_answered fits hasked

end

/-- Surroundings with one variable, and a feed of one entry with this title in the web. -/
def Surroundings.ofVariable (name value title : String) : Surroundings where
  environment := [(name, value)]
  web := [("http://a.example/feed", { (default : Response) with
    document := { (default : Document) with
      isFeed := true
      entries := [.dict [("title", .text title)]] } })]
  now := Instant.first.toDateTime
  stamp := ⟨.first, .midnight⟩

def misfitting : Surroundings := .ofVariable "FEEDSTREAM_PROVIDER__TIMEOUT_MS" "abc" "x"

def fitting (title : String) : Surroundings := .ofVariable "FEEDSTREAM_LOGGING__FILE_PATH" "" title

/-- The console that refuses a table with a mark of style that ends where none has begun. -/
def Console.minding : Console where
  refusal? shown :=
    match shown with
    | .text _ => none
    | .table t =>
        if t.rows.any fun row => row.any fun cell => "[/r/".toList.isPrefixOf cell.toList then
          some (.other "MarkupError" (some "rich.errors") [], "nothing to close")
        else none

/-- The session of a check that found a misfit. -/
def afterMisfit : Session := .after .minding [(misfitting, ["check-config"])]

def inLines : List String := ["fetch", "http://a.example/feed", "--json"]

/-- A run may be a success whose title is not shown. -/
example : (call (.on .minding) (fitting "[/r/python] hello")
    ["fetch", "http://a.example/feed"]).1.exitCode = 1 := by
  decide +kernel

end CommandLine

end FeedIntake
