import FeedIntake.Proofs.ValidSources

/-! # Settings that are loaded and kept

A load fails as a failure of the configuration, or what it gives is valid as a whole: its numbers
lie within their bounds, its threshold is the instant that was given for it, and its sources would
be accepted once more as they are. What is kept is what the last load gave that came about; calls
that do not load answer with it, and a load that fails leaves it.
-/

namespace FeedIntake

open Time (DateTime Instant)

namespace Settings

/-! ## What an environment gives -/

/-- The value that an environment gives for a setting of a section, if any. -/
def given? (env : Environment) (section_ name : String) : Option Value :=
  match Environment.structured? env.byName section_ with
  | .ok (some (.dict fields)) => fields.lookup name
  | _ => none

def sectionGiven (vars : Fields) (name : String) : Checked (Option (String × Value)) :=
  match Environment.structured? vars name with
  | .error () => throw (.unreadable name)
  | .ok v => return v.map (name, ·)

section

variable {vars : Fields} {names : List String} {found : Fields} {env : Environment}
  {fields : Fields}

theorem sectionGiven_eq_ok {name : String} {member : Option (String × Value)}
    (h : sectionGiven vars name = .ok member) :
    ∃ v, Environment.structured? vars name = .ok v ∧ member = v.map (name, ·) := by
  unfold sectionGiven at h
  split at h
  · cases h
  · rename_i v hv
    cases h
    exact ⟨v, hv, rfl⟩

/-- Sections are gathered under their names, and nothing is gathered under other names. The
induction is on the names that are still to be looked up. -/
theorem lookup_of_filterMapM (hnodup : names.Nodup)
    (h : names.filterMapM (sectionGiven vars) = .ok found) (name : String) :
    (name ∈ names → Environment.structured? vars name = .ok (found.lookup name)) ∧
      (name ∉ names → found.lookup name = none) := by
  induction names generalizing found with
  | nil =>
      cases h
      exact ⟨fun hmem => absurd hmem List.not_mem_nil, fun _ => rfl⟩
  | cons first rest ih =>
      obtain ⟨hfirst, hrest⟩ := List.nodup_cons.mp hnodup
      rw [List.filterMapM_cons] at h
      obtain ⟨member, hmember, h⟩ := exists_of_bind_eq_ok h
      obtain ⟨v, hv, rfl⟩ := sectionGiven_eq_ok hmember
      cases v with
      | none =>
          obtain ⟨hfound, hnone⟩ := ih hrest h
          refine ⟨fun hmem => ?_, fun hmem => hnone fun hin => hmem (List.mem_cons_of_mem _ hin)⟩
          rcases List.mem_cons.mp hmem with rfl | hin
          · rw [hv, hnone hfirst]
          · exact hfound hin
      | some w =>
          obtain ⟨others, hothers, h⟩ := exists_of_bind_eq_ok h
          cases h
          obtain ⟨hfound, hnone⟩ := ih hrest hothers
          by_cases hname : name = first
          · subst hname
            simp [hv]
          · rw [List.lookup_cons, beq_false_of_ne hname]
            refine ⟨fun hmem => hfound ?_, fun hmem => hnone fun hin => ?_⟩
            · exact (List.mem_cons.mp hmem).resolve_left hname
            · exact hmem (List.mem_cons_of_mem _ hin)

theorem structured?_of_gather (h : gather env = .ok fields) {name : String}
    (hname : name ∈ ["provider", "dedup", "logging", "sources"]) :
    Environment.structured? env.byName name = .ok (fields.lookup name) := by
  obtain ⟨found, hfound, h⟩ := exists_of_bind_eq_ok h
  cases h
  have hsection := (lookup_of_filterMapM (by decide) hfound name).1 hname
  have hapart : ∀ a ∈ ["provider", "dedup", "logging", "sources"],
      ∀ b ∈ ["app_name", "version", "debug"], a ≠ b := by decide
  have hplain : (["app_name", "version", "debug"].filterMap fun name =>
      (Environment.plain? env.byName name).map (name, ·)).lookup name = none := by
    refine List.lookup_eq_none_iff.mpr fun member hmember => ?_
    obtain ⟨other, hother, hmap⟩ := List.mem_filterMap.mp hmember
    obtain ⟨v, -, rfl⟩ := Option.map_eq_some_iff.mp hmap
    exact bne_iff_ne.mpr (hapart name hname other hother)
  rw [List.lookup_append, hplain, Option.or_none]
  exact hsection

/-! ## What is loaded -/

/-- The threshold that a value given for it comes to: none without a value, else the instant that is
denoted, in UTC. A date-time without an offset is taken to be in UTC. -/
inductive IsThreshold : Option Value → Option Instant → Prop where
  | absent : IsThreshold none none
  | null : IsThreshold (some .null) none
  | denoted {v : Value} {d : DateTime} {i : Instant} (hread : Fit.moment v = .ok d)
      (h : i.toDateTime.position = d.position) : IsThreshold (some v) (some i)

theorem isThreshold_of_thresholdIn {place : List PlaceStep} {since : Option Instant}
    (h : thresholdIn fields place = .ok since) :
    IsThreshold (fields.lookup "published_since") since := by
  obtain ⟨read, hread, h⟩ := exists_of_bind_eq_ok h
  unfold Checked.field at hread
  cases hlookup : fields.lookup "published_since" with
  | none =>
      rw [hlookup] at hread
      cases hread
      cases h
      exact .absent
  | some v =>
      rw [hlookup] at hread
      dsimp only at hread
      cases hfit : Fit.optional Fit.moment v with
      | error kind =>
          rw [hfit] at hread
          cases hread
      | ok x =>
          rw [hfit] at hread
          cases hread
          rcases Fit.of_optional hfit with ⟨rfl, rfl⟩ | ⟨d, rfl, hd⟩
          · cases h
            exact .null
          · dsimp only at h
            split at h
            · rename_i i hi
              cases h
              refine .denoted hd ?_
              rw [Instant.position_toDateTime]
              exact DateTime.instant?_eq_some_iff.mp hi
            · cases h

theorem exists_of_sectionOf {α : Type} {name : String} {read : Fields → Checked α} {x : α}
    (h : Checked.sectionOf fields name read = .ok x) : ∃ own, read own = .ok x ∧
      (fields.lookup name = none ∧ own = [] ∨ fields.lookup name = some (.dict own)) := by
  unfold Checked.sectionOf at h
  split at h
  · rename_i hlookup
    exact ⟨[], h, .inl ⟨hlookup, rfl⟩⟩
  · rename_i own hlookup
    exact ⟨own, h, .inr hlookup⟩
  · cases h

variable {s : Settings}

theorem thresholdIn_of_readingIn {r : ReadingSettings} (h : readingIn fields = .ok r) :
    thresholdIn fields [.name "provider"] = .ok r.publishedSince := by
  simp only [readingIn, Checked.seq_eq_ok_iff, Except.ok.injEq] at h
  obtain ⟨_, _, ⟨_, _, ⟨_, _, ⟨_, since, ⟨_, _, ⟨_, _, ⟨_, _, rfl, -, rfl⟩, -, rfl⟩, -, rfl⟩,
    hsince, rfl⟩, -, rfl⟩, -, rfl⟩, -, rfl⟩ := h
  exact hsince

theorem readingIn_of_known (h : known fields = .ok s) :
    Checked.sectionOf fields "provider" readingIn = .ok s.reading := by
  simp only [known, Checked.seq_eq_ok_iff, Except.ok.injEq] at h
  obtain ⟨_, _, ⟨_, _, ⟨_, _, ⟨_, _, ⟨_, _, ⟨_, _, ⟨_, reading, rfl, hreading, rfl⟩, -, rfl⟩, -,
    rfl⟩, -, rfl⟩, -, rfl⟩, -, rfl⟩, -, rfl⟩ := h
  exact hreading

theorem isThreshold_of_read (h : read env [] = .ok s) :
    IsThreshold (given? env "provider" "published_since") s.reading.publishedSince := by
  obtain ⟨fields, hgather, h⟩ := exists_of_bind_eq_ok h
  have hsection : Checked.sectionOf fields "provider" readingIn = .ok s.reading :=
    readingIn_of_known (known_of_ofFields h)
  obtain ⟨own, hown, hlookup⟩ := exists_of_sectionOf hsection
  have hthreshold := isThreshold_of_thresholdIn (thresholdIn_of_readingIn hown)
  rw [given?, structured?_of_gather hgather (by decide)]
  rcases hlookup with ⟨hnone, rfl⟩ | hsome
  · rw [hnone]
    exact hthreshold
  · rw [hsome]
    exact hthreshold

/-- Settings are valid for the environment they were loaded from. -/
structure Valid (env : Environment) (s : Settings) : Prop where
  fits : s.Fits
  threshold : IsThreshold (given? env "provider" "published_since") s.reading.publishedSince
  sourcesApart : s.sources.Nodup
  /-- To check the sources again changes nothing. -/
  sourcesStable : Url.validateAll (s.sources.map .text) = .ok s.sources

theorem valid_of_load {f f' : Folder} (h : load env f = .ok (s, f')) : s.Valid env := by
  have hread := read_of_load h
  have sources := areSources_of_read hread
  exact ⟨load_fits h, isThreshold_of_read hread, Url.validateAll_nodup sources.validateAll,
    sources.validateAll⟩

theorem kind_of_load {f : Folder} {failure : Failure} (h : load env f = .error failure) :
    failure.kind = .configuration ∧ failure.code = some .configInvalid := by
  unfold load at h
  split at h
  · rename_i s _
    obtain hfolder : s.makeLogFolder f = .error failure := by
      cases hfolder : s.makeLogFolder f with
      | error fault =>
          rw [hfolder] at h
          cases h
          rfl
      | ok made =>
          rw [hfolder] at h
          cases h
    unfold makeLogFolder at hfolder
    split at hfolder
    · cases hfolder
    · cases hfolder
    · rename_i path _ _
      cases hmake : f.make (Path.ofText path).parent with
      | ok made =>
          rw [hmake] at hfolder
          cases hfolder
      | error fault =>
          rw [hmake] at hfolder
          cases hfolder
          cases fault <;> exact ⟨rfl, rfl⟩
  · cases h
    exact ⟨rfl, rfl⟩

end

end Settings

/-! ## What is kept -/

/-- A call for the settings, with the environment and the folder that it finds. -/
structure SettingsCall where
  environment : Environment
  folder : Folder
  reload : Bool

namespace SettingsCall

def load (call : SettingsCall) : Except Failure (Settings × Folder) :=
  Settings.load call.environment call.folder

/-- What the loads among calls gave, the latest first. A call loads if it is to reload, or if no
load before it came about. -/
def loads : List SettingsCall → List (Except Failure Settings)
  | [] => []
  | call :: earlier =>
      if call.reload ∨ (loads earlier).findSome? Except.toOption = none then
        call.load.map Prod.fst :: loads earlier
      else loads earlier

/-- The settings of the last load that came about. -/
def lastLoaded (calls : List SettingsCall) : Option Settings :=
  (loads calls).findSome? Except.toOption

def Loads (call : SettingsCall) (earlier : List SettingsCall) : Prop :=
  call.reload ∨ lastLoaded earlier = none

variable {call : SettingsCall} {earlier calls : List SettingsCall}

theorem loads_cons_of_loads (h : call.Loads earlier) :
    loads (call :: earlier) = call.load.map Prod.fst :: loads earlier :=
  if_pos h

theorem loads_cons_of_not_loads (h : ¬ call.Loads earlier) :
    loads (call :: earlier) = loads earlier :=
  if_neg h

end SettingsCall

namespace SettingsCache

def ask (c : SettingsCache) (call : SettingsCall) :
    Except Failure (Settings × SettingsCache × Folder) :=
  c.get call.environment call.folder call.reload

def next (c : SettingsCache) (call : SettingsCall) : SettingsCache :=
  match c.ask call with
  | .ok (_, c', _) => c'
  | .error _ => c

def after : List SettingsCall → SettingsCache
  | [] => empty
  | call :: earlier => (after earlier).next call

open SettingsCall

variable {c : SettingsCache} {call : SettingsCall} {earlier : List SettingsCall}

theorem ask_of_kept {s : Settings} (hkept : c.kept = some s) (h : call.reload = false) :
    c.ask call = .ok (s, c, call.folder) := by
  obtain ⟨kept⟩ := c
  cases hkept
  rw [ask, h]
  rfl

theorem ask_of_load (h : call.reload = true ∨ c.kept = none) :
    c.ask call = call.load.map fun r => (r.1, ⟨some r.1⟩, r.2) := by
  unfold ask get
  split
  · rename_i hkept hreload
    rw [hkept, hreload] at h
    simp at h
  · rfl

/-- The settings kept are those of the last load that came about. The induction is on the calls, and
each adds a load that came about, one that did not, or none. -/
theorem kept_after (calls : List SettingsCall) : (after calls).kept = lastLoaded calls := by
  induction calls with
  | nil => rfl
  | cons call earlier ih =>
      by_cases hloads : call.Loads earlier
      · rw [lastLoaded, loads_cons_of_loads hloads, after, next,
          ask_of_load (by rwa [ih])]
        cases call.load with
        | error failure => exact ih
        | ok r => rfl
      · obtain ⟨hreload, hlast⟩ := not_or.mp hloads
        obtain ⟨s, hs⟩ := Option.ne_none_iff_exists'.mp hlast
        rw [lastLoaded, loads_cons_of_not_loads hloads, after, next,
          ask_of_kept (ih.trans hs) (Bool.eq_false_iff.mpr hreload)]
        exact ih

theorem ask_of_loads (h : call.Loads earlier) :
    (after earlier).ask call = call.load.map fun r => (r.1, ⟨some r.1⟩, r.2) :=
  ask_of_load (by rwa [kept_after])

theorem ask_of_not_loads (h : ¬ call.Loads earlier) : ∃ s, lastLoaded earlier = some s ∧
    (after earlier).ask call = .ok (s, after earlier, call.folder) := by
  obtain ⟨hreload, hlast⟩ := not_or.mp h
  obtain ⟨s, hs⟩ := Option.ne_none_iff_exists'.mp hlast
  exact ⟨s, hs, ask_of_kept ((kept_after _).trans hs) (Bool.eq_false_iff.mpr hreload)⟩

theorem next_of_error {failure : Failure} (h : c.ask call = .error failure) : c.next call = c := by
  rw [next, h]

theorem loads_of_error {failure : Failure} (h : (after earlier).ask call = .error failure) :
    call.Loads earlier ∧ call.load = .error failure := by
  by_cases hloads : call.Loads earlier
  · refine ⟨hloads, ?_⟩
    rw [ask_of_loads hloads] at h
    cases hload : call.load with
    | error other =>
        rw [hload] at h
        cases h
        rfl
    | ok r =>
        rw [hload] at h
        cases h
  · obtain ⟨s, -, hask⟩ := ask_of_not_loads hloads
    rw [hask] at h
    cases h

/-- **Settings are valid or untouched.** A load fails as a failure of the configuration, or gives
settings that are valid for the environment. A call that loads answers as the load does, and a call
that does not, with what the last load gave that came about. Only a call that loads can fail, and
then what is kept stays as it was. -/
theorem settings_valid_or_untouched :
    (∀ env f,
      (∃ failure, Settings.load env f = .error failure ∧ failure.kind = .configuration ∧
        failure.code = some .configInvalid) ∨
      ∃ s f', Settings.load env f = .ok (s, f') ∧ s.Valid env) ∧
    ∀ call earlier,
      (call.Loads earlier →
        (after earlier).ask call = call.load.map fun r => (r.1, ⟨some r.1⟩, r.2)) ∧
      (¬ call.Loads earlier → ∃ s, lastLoaded earlier = some s ∧
        (after earlier).ask call = .ok (s, after earlier, call.folder)) ∧
      (∀ failure, (after earlier).ask call = .error failure →
        call.Loads earlier ∧ call.load = .error failure ∧
          after (call :: earlier) = after earlier) ∧
      (after (call :: earlier)).kept = lastLoaded (call :: earlier) := by
  refine ⟨fun env f => ?_, fun call earlier => ⟨ask_of_loads, ask_of_not_loads,
    fun failure h => ?_, kept_after _⟩⟩
  · cases hload : Settings.load env f with
    | error failure => exact .inl ⟨failure, rfl, Settings.kind_of_load hload⟩
    | ok r => exact .inr ⟨r.1, r.2, rfl, Settings.valid_of_load hload⟩
  · obtain ⟨hloads, hload⟩ := loads_of_error h
    exact ⟨hloads, hload, next_of_error h⟩

end SettingsCache

end FeedIntake
