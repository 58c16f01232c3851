import FeedIntake.Proofs.Collection
import FeedIntake.Proofs.DayNumbers
import FeedIntake.Proofs.SettingsBounds
import FeedIntake.Proofs.SourceLists
import FeedIntake.Proofs.Thresholds

/-! # Sessions

A session keeps its console, and only settings that fit. So the sources and the threshold of a fetch
are all that its round depends on, and a round of which nothing is called off comes through.
-/

namespace FeedIntake

open Intake
open Time (DateTime Instant)

/-! ## Responses that are not called off -/

/-- Nothing that goes wrong with a response is a cancellation. -/
structure Response.Uncancelled (r : Response) : Prop where
  connecting : ∀ fault, r.connectFault = some fault → fault.isCancellation = false
  reading : ∀ fault, r.readFault = some fault → fault.isCancellation = false
  parsing : ∀ fault, r.parseFault = some fault → fault.isCancellation = false
  listing : ∀ fault, r.document.listingFault = some fault → fault.isCancellation = false

theorem Response.Uncancelled.letsOut {r : Response} {fault : Fault} (uncancelled : r.Uncancelled)
    (letsOut : r.LetsOut fault) : fault.isCancellation = false := by
  cases letsOut with
  | transport met =>
      cases met with
      | connecting h => exact uncancelled.connecting fault h
      | reading _ _ h => exact uncancelled.reading fault h
  | parsing _ h => exact uncancelled.parsing fault h
  | listing _ _ _ _ h => exact uncancelled.listing fault h

/-- Without a connection there is nothing else that can be called off. -/
theorem Response.uncancelled_unconnected {fault : Fault} (h : fault.isCancellation = false) :
    { (default : Response) with connectFault := some fault }.Uncancelled where
  connecting := by
    rintro _ ⟨⟩
    exact h
  reading := by
    rintro _ ⟨⟩
  parsing := by
    rintro _ ⟨⟩
  listing := by
    rintro _ ⟨⟩

/-- No fetch from a web where nothing is called off is called off. -/
theorem Fetcher.answerFor_uncancelled {fetcher : Fetcher} {web : List (String × Response)}
    (huncancelled : ∀ entry ∈ web, entry.2.Uncancelled) {job : JobSpec} {fault : Fault}
    (h : (Supplier.network fetcher).answerFor web job = .error fault) :
    fault.isCancellation = false := by
  rw [Supplier.answerFor] at h
  split at h
  · cases h
    rfl
  · rename_i url _
    have hresponse : ((web.lookup url).getD .unreachable).Uncancelled := by
      cases hlookup : web.lookup url with
      | none => exact Response.uncancelled_unconnected rfl
      | some response =>
          obtain ⟨before, after, heq, -⟩ := List.lookup_eq_some_iff.mp hlookup
          exact huncancelled (url, response) (by simp [heq])
    unfold JobSpec.conclusion at h
    rcases Fetcher.conclude_cases (.text job.source) url job.timeoutMs 0
        ((web.lookup url).getD .unreachable) with
      ⟨entries, delivers⟩ | ⟨raised, letsOut⟩ | ⟨told, ⟨f, rfl, -⟩, heq⟩
    · rw [Fetcher.conclude_of_delivers delivers] at h
      cases h
    · rw [Fetcher.conclude_of_letsOut letsOut] at h
      cases h
      exact hresponse.letsOut letsOut
    · rw [heq] at h
      cases h
      rfl

/-- A store of a size that fits can always be had. -/
theorem Settings.Fits.exists_snapshots {settings : Settings} (fits : settings.Fits) :
    ∃ store, settings.snapshots = .ok store := by
  unfold Settings.snapshots
  cases hmax : settings.memory.maxSources with
  | none => exact ⟨_, rfl⟩
  | some n =>
      have hpos : 1 ≤ n := (fits.memory.sources n hmax).1
      rw [Option.map_some, Snapshots.new?, dif_pos (show (0 : Int) < Int.ofNat n by simp; omega)]
      exact ⟨_, rfl⟩

namespace CommandLine

/-! ## Sessions -/

/-- A session has its console, and the settings that it keeps fit. -/
structure Session.Sound (s : Session) (console : Console) : Prop where
  console : s.console = console
  settings : ∀ settings, s.settings.kept = some settings → settings.Fits

/-- A session after some calls, each with its surroundings and its arguments. -/
def Session.after (console : Console) (calls : List (Surroundings × List String)) : Session :=
  calls.foldl (fun s c => (call s c.1 c.2).2) (.on console)

/-- What is written to the logbook and to the store leaves these alone. -/
structure Session.Agrees (s s' : Session) : Prop where
  console : s'.console = s.console
  settings : s'.settings = s.settings

section

variable {console : Console} {s s' : Session} {world : Surroundings} {settings : Settings}
  {debug : Bool} {o : FetchOptions}

/-- Settings that are loaded fit, and they are what the session keeps from then on. -/
theorem Session.load_cases (s : Session) (world : Surroundings) :
    (∃ f, s.load world = .error f) ∨
      ∃ settings folder, s.load world =
        .ok (settings, { s with settings := ⟨some settings⟩, folder }) ∧
          ∀ console, s.Sound console → settings.Fits := by
  unfold load SettingsCache.get
  obtain ⟨_, ⟨kept⟩, folder, logbook, store⟩ := s
  cases kept with
  | some settings =>
      exact .inr ⟨settings, folder, rfl, fun _ sound => sound.settings settings rfl⟩
  | none =>
      cases hload : Settings.load world.environment folder with
      | error f => exact .inl ⟨f, rfl⟩
      | ok r =>
          obtain ⟨settings, made⟩ := r
          exact .inr ⟨settings, made, rfl, fun _ _ => Settings.load_fits hload⟩

theorem Session.agrees_write (s : Session) (stamp : LogStamp) (entries : List LogEntry) :
    s.Agrees (s.write stamp entries).2 := by
  unfold write
  exact List.foldlRecOn (motive := fun acc : String × Session => s.Agrees acc.2) entries _
    ⟨rfl, rfl⟩ fun _ agrees _ _ => ⟨agrees.console, agrees.settings⟩

theorem agrees_runFetch (s : Session) (world : Surroundings) (settings : Settings)
    (o : FetchOptions) (sources : List String) :
    s.Agrees (runFetch s world settings o sources).2 := by
  unfold runFetch
  split
  · exact ⟨rfl, rfl⟩
  · split
    · exact ⟨rfl, rfl⟩
    · exact ⟨(Session.agrees_write _ _ _).console, (Session.agrees_write _ _ _).settings⟩

/-- What a fetch starts from: settings, and a logbook that was set up by them. -/
def Session.setUp (s : Session) (world : Surroundings) (debug : Bool) :
    Except Escape Settings × Session :=
  match s.load world with
  | .error f => (.error (.fault (.failure f)), s)
  | .ok (settings, s) =>
      let (configured, logbook, folder) := s.logbook.configure s.folder (logOptions settings debug)
      let s := { s with logbook, folder }
      match configured with
      | .error fault => (.error (.log fault), s)
      | .ok () => (.ok settings, s)

def FetchOptions.asked (o : FetchOptions) (settings : Settings) : List String :=
  if o.urls.isEmpty then settings.sources else o.urls

theorem fetch_eq (s : Session) (world : Surroundings) (debug : Bool) (o : FetchOptions) :
    fetch s world debug o = match s.setUp world debug with
      | (.error escape, s) => (.ofEscape escape, s)
      | (.ok settings, s) =>
          if (o.asked settings).isEmpty then
            (.exit 2 [.text [alarm "No feed URLs given and FEEDSTREAM_SOURCES is empty"]], s)
          else runFetch s world settings o (o.asked settings) := by
  unfold fetch Session.setUp
  cases s.load world with
  | error f => rfl
  | ok r =>
      obtain ⟨settings, s'⟩ := r
      dsimp only
      cases (s'.logbook.configure s'.folder (logOptions settings debug)).1 <;> rfl

/-- A set-up fails with the settings, or fails or comes about once they are loaded. -/
theorem Session.setUp_cases (s : Session) (world : Surroundings) (debug : Bool) :
    (∃ f, s.load world = .error f ∧ s.setUp world debug = (.error (.fault (.failure f)), s)) ∨
      ∃ settings s₁ s₂, s.load world = .ok (settings, s₁) ∧ s₁.Agrees s₂ ∧
        ((∃ fault, s.setUp world debug = (.error (.log fault), s₂)) ∨
          s.setUp world debug = (.ok settings, s₂)) := by
  unfold setUp
  cases hload : s.load world with
  | error f => exact .inl ⟨f, rfl, rfl⟩
  | ok r =>
      obtain ⟨settings, s₁⟩ := r
      refine .inr ⟨settings, s₁, { s₁ with
        logbook := (s₁.logbook.configure s₁.folder (logOptions settings debug)).2.1
        folder := (s₁.logbook.configure s₁.folder (logOptions settings debug)).2.2 }, rfl,
        ⟨rfl, rfl⟩, ?_⟩
      dsimp only
      cases (s₁.logbook.configure s₁.folder (logOptions settings debug)).1 with
      | error fault => exact .inl ⟨fault, rfl⟩
      | ok u => exact .inr rfl

theorem Session.Sound.of_agrees (sound : s.Sound console) (agrees : s.Agrees s') :
    s'.Sound console :=
  ⟨agrees.console.trans sound.console, by simpa only [agrees.settings] using sound.settings⟩

theorem Session.Sound.load (sound : s.Sound console) (h : s.load world = .ok (settings, s')) :
    settings.Fits ∧ s'.Sound console := by
  rcases s.load_cases world with ⟨f, hf⟩ | ⟨loaded, folder, heq, hfits⟩
  · rw [hf] at h
    cases h
  · rw [heq] at h
    cases h
    refine ⟨hfits console sound, sound.console, fun kept hkept => ?_⟩
    cases hkept
    exact hfits console sound

theorem Session.Sound.setUp (sound : s.Sound console) (world : Surroundings) (debug : Bool) :
    (s.setUp world debug).2.Sound console ∧
      ∀ settings, (s.setUp world debug).1 = .ok settings → settings.Fits := by
  rcases s.setUp_cases world debug with ⟨f, -, heq⟩ | ⟨loaded, s₁, s₂, hload, agrees, h⟩
  · rw [heq]
    exact ⟨sound, fun settings h => by cases h⟩
  · obtain ⟨hfits, sound₁⟩ := sound.load hload
    have sound₂ := sound₁.of_agrees agrees
    rcases h with ⟨fault, heq⟩ | heq
    · rw [heq]
      exact ⟨sound₂, fun settings h => by cases h⟩
    · rw [heq]
      refine ⟨sound₂, fun settings h => ?_⟩
      cases h
      exact hfits

theorem Session.Sound.fetch (sound : s.Sound console) (world : Surroundings) (debug : Bool)
    (o : FetchOptions) : (fetch s world debug o).2.Sound console := by
  have sound' := (sound.setUp world debug).1
  rw [fetch_eq]
  generalize s.setUp world debug = r at sound'
  obtain ⟨result, s'⟩ := r
  cases result with
  | error escape => exact sound'
  | ok settings =>
      dsimp only
      split
      · exact sound'
      · exact sound'.of_agrees (agrees_runFetch _ _ _ _ _)

theorem Session.Sound.checkConfig (sound : s.Sound console) (world : Surroundings) :
    (checkConfig s world).2.Sound console := by
  unfold CommandLine.checkConfig
  split
  · exact sound
  · cases hload : s.load world with
    | error f => exact sound
    | ok r => exact (sound.load hload).2

/-- **A call leaves a session with its console, and with settings that fit.** -/
theorem Session.Sound.call (sound : s.Sound console) (world : Surroundings)
    (arguments : List String) : (call s world arguments).2.Sound console := by
  show (answer s world arguments).2.Sound console
  unfold answer
  cases readOrder arguments with
  | error refusal => exact sound
  | ok order =>
      cases order with
      | help page => exact sound
      | checkConfig => exact sound.checkConfig world
      | fetch debug o => exact sound.fetch world debug o

theorem Session.sound_after (console : Console) (calls : List (Surroundings × List String)) :
    (Session.after console calls).Sound console := by
  suffices h : ∀ s : Session, s.Sound console →
      (calls.foldl (fun s c => (CommandLine.call s c.1 c.2).2) s).Sound console from
    h _ ⟨rfl, fun settings hkept => by cases hkept⟩
  induction calls with
  | nil => exact fun s sound => sound
  | cons c rest ih => exact fun s sound => ih _ (sound.call c.1 c.2)

/-! ## Rounds of calls -/

/-- The round that a fetch makes over checked sources. -/
def FetchOptions.roundFor (o : FetchOptions) (settings : Settings) (since : Option DateTime)
    (urls : List String) : RoundSpec where
  sources := urls
  since := since.getD settings.threshold
  timeoutMs := o.timeoutMs.getD settings.reading.timeoutMs
  perpetual := (if o.perpetual then some true else none).getD settings.reading.perpetual
  supplier := 0
  limit := settings.reading.maxConcurrent

theorem prepareRound_eq (s : Session) (settings : Settings) (o : FetchOptions)
    (sources : List String) (since : Option DateTime) :
    prepareRound s settings o sources since = (do
      let urls ← (Url.validateAll (sources.map .text)).mapError fun u : UrlFault =>
        .failure u.toFailure
      let store ← match s.store with
        | some store => pure store
        | none => settings.snapshots
      return (o.roundFor settings since urls, store)) := by
  unfold prepareRound RoundSpec.ofGiven
  cases Url.validateAll (sources.map .text) <;> rfl

/-- **A round is made of sources that are all URLs.** Else the first that is none is told. -/
theorem prepareRound_cases (fits : settings.Fits) (s : Session) (o : FetchOptions)
    (sources : List String) (since : Option DateTime) :
    (∃ u : UrlFault, prepareRound s settings o sources since = .error (.failure u.toFailure) ∧
        ∃ url ∈ sources, ∃ fault, Url.validateText url = .error fault) ∨
      ∃ urls store, Url.validateAll (sources.map .text) = .ok urls ∧
        prepareRound s settings o sources since = .ok (o.roundFor settings since urls, store) := by
  rw [prepareRound_eq]
  cases hurls : Url.validateAll (sources.map .text) with
  | error u =>
      obtain ⟨url, hurl, fault, hfault⟩ := Url.exists_validateAll_error_iff.mp ⟨u, hurls⟩
      obtain ⟨text, htext, rfl⟩ := List.mem_map.mp hurl
      exact .inl ⟨u, rfl, text, htext, fault, hfault⟩
  | ok urls =>
      refine .inr ⟨urls, ?_⟩
      cases s.store with
      | some store => exact ⟨store, rfl, rfl⟩
      | none =>
          obtain ⟨store, hstore⟩ := fits.exists_snapshots
          rw [hstore]
          exact ⟨store, rfl, rfl⟩

/-- A fetch has sources and a threshold and makes its round. -/
structure Session.Gathers (s : Session) (world : Surroundings) (settings : Settings)
    (o : FetchOptions) (spec : RoundSpec) (store : Snapshots) (w : Intake) : Prop where
  asked : o.asked settings ≠ []
  prepared : ∃ since, sinceOf o = .ok since ∧
    prepareRound s settings o (o.asked settings) since = .ok (spec, store)
  collected : w = (collect settings world spec store).1

theorem Session.Gathers.unique {spec spec' : RoundSpec} {store store' : Snapshots} {w w' : Intake}
    (gathers : s.Gathers world settings o spec store w)
    (gathers' : s.Gathers world settings o spec' store' w') :
    spec = spec' ∧ store = store' ∧ w = w' := by
  obtain ⟨-, ⟨since, hsince, hprepared⟩, rfl⟩ := gathers
  obtain ⟨-, ⟨since', hsince', hprepared'⟩, rfl⟩ := gathers'
  rw [hsince] at hsince'
  cases hsince'
  rw [hprepared] at hprepared'
  cases hprepared'
  exact ⟨rfl, rfl, rfl⟩

theorem thresholdOf_since {since : Option DateTime} (h : sinceOf o = .ok since)
    (settings : Settings) : ∃ i, thresholdOf (since.getD settings.threshold) = .ok i := by
  unfold sinceOf at h
  split at h
  · cases h
    exact ⟨_, thresholdOf_toDateTime _⟩
  · split at h
    · cases h
      exact ⟨_, thresholdOf_toDateTime _⟩
    · cases h

/-- Where there are no seconds to wait for answers, nothing is called off either. -/
theorem Surroundings.uncancelled_webFor (hweb : ∀ entry ∈ world.web, entry.2.Uncancelled)
    (spec : RoundSpec) : ∀ entry ∈ world.webFor spec, entry.2.Uncancelled := by
  unfold webFor
  split
  · exact hweb
  · intro entry hentry
    obtain ⟨url, -, rfl⟩ := List.mem_map.mp hentry
    exact Response.uncancelled_unconnected rfl

/-- **A round of which nothing is called off comes through.** What it has taken, one record after
another, is what its runs have put. -/
theorem Session.Gathers.collectsAll {spec : RoundSpec} {store : Snapshots} {w : Intake}
    (gathers : s.Gathers world settings o spec store w) (fits : settings.Fits)
    (hweb : ∀ entry ∈ world.web, entry.2.Uncancelled) :
    ∃ since, thresholdOf spec.since = .ok since ∧
      w.CollectsAll store (spec.sources.map (spec.jobFor since))
        ((Supplier.network settings.fetcher).answerFor (world.webFor spec)) ∧
      w.taken = w.history.recordsPut := by
  obtain ⟨hasked, ⟨since, hsince, hprepared⟩, rfl⟩ := gathers
  rcases prepareRound_cases fits s o (o.asked settings) since with
    ⟨u, hrefused, -⟩ | ⟨urls, store', hurls, heq⟩
  · rw [hrefused] at hprepared
    cases hprepared
  rw [heq] at hprepared
  cases hprepared
  obtain ⟨threshold, hthreshold⟩ := thresholdOf_since hsince settings
  have responds : (Supplier.network settings.fetcher).Responds
      (world.webFor (o.roundFor settings since urls)) (o.roundFor settings since urls) threshold :=
    ⟨fun _ _ _ hfault =>
      Fetcher.answerFor_uncancelled (Surroundings.uncancelled_webFor hweb _) hfault,
      fun _ h => by cases h⟩
  have hsources : (o.roundFor settings since urls).sources ≠ [] :=
    Url.validateAll_ne_nil hurls (by simpa using hasked)
  have hlimit : 1 ≤ (o.roundFor settings since urls).limit :=
    Int.ofNat_le.mpr fits.reading.concurrency.1
  obtain ⟨h, rested⟩ : ∃ h, Hall.Rested world.now settings.reading.queueSize store responds h
      (collect settings world (o.roundFor settings since urls) store).1 := by
    rw [collect_eq]
    exact Hall.rested_settle hsources fits.reading.queue.1 hlimit hthreshold responds
  exact ⟨threshold, hthreshold, rested.collectsAll (Url.validateAll_nodup hurls), rested.taken_eq⟩

end

end CommandLine

end FeedIntake
