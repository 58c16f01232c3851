import FeedIntake.Settings

/-! # Settings lie within their bounds

A number is taken for a setting only within the bounds of that setting, and what stands in where
none is given lies within them too. So settings that are read fit, and so do those that are kept.
-/

namespace FeedIntake

namespace Fit

variable {α : Type} {v : Value}

theorem within_of_whole {b : Bounds} {k : Int} (h : wholeNumber v = .ok k) :
    within b v = if k < b.least then .error .tooSmall
      else if b.greatest.any fun m : Nat => decide ((m : Int) < k) then .error .tooLarge
      else .ok k.toNat := by
  obtain ⟨least, greatest⟩ := b
  rw [within, h]
  cases greatest with
  | none => rfl
  | some m =>
      rw [Option.any_some]
      simp only [decide_eq_true_eq, bind, Except.bind]
      rfl

theorem holds_of_within {b : Bounds} {n : Nat} (h : within b v = .ok n) : b.Holds n := by
  cases hwhole : wholeNumber v with
  | error kind =>
      rw [within, hwhole] at h
      cases h
  | ok k =>
      rw [within_of_whole hwhole] at h
      split at h
      · cases h
      · split at h
        · cases h
        · rename_i hsmall hlarge
          cases h
          refine ⟨by omega, fun m hm => ?_⟩
          rw [hm, Option.any_some, decide_eq_true_eq] at hlarge
          omega

theorem of_optional {fit : Value → Fit α} {x : Option α} (h : optional fit v = .ok x) :
    (v = .null ∧ x = none) ∨ ∃ y, x = some y ∧ fit v = .ok y := by
  unfold optional at h
  split at h
  · cases h
    exact .inl ⟨rfl, rfl⟩
  · cases hfit : fit v with
    | error kind =>
        rw [hfit] at h
        cases h
    | ok y =>
        rw [hfit] at h
        cases h
        exact .inr ⟨y, rfl, rfl⟩

end Fit

namespace Checked

variable {α : Type} {fields : Fields} {place : List PlaceStep} {name : String}

theorem of_field {fallback x : α} {fit : Value → Fit α}
    (h : field fields place name fallback fit = .ok x) : x = fallback ∨ ∃ v, fit v = .ok x := by
  unfold field at h
  split at h
  · cases h
    exact .inl rfl
  · rename_i v _
    split at h
    · rename_i y hfit
      cases h
      exact .inr ⟨v, hfit⟩
    · cases h

theorem holds_of_field {b : Fit.Bounds} {fallback n : Nat} (hfallback : b.Holds fallback)
    (h : field fields place name fallback (Fit.within b) = .ok n) : b.Holds n := by
  rcases of_field h with rfl | ⟨v, hv⟩
  · exact hfallback
  · exact Fit.holds_of_within hv

theorem holds_of_optional {b : Fit.Bounds} {x : Option Nat}
    (h : field fields place name none (Fit.optional (Fit.within b)) = .ok x) :
    ∀ n, x = some n → b.Holds n := by
  intro n hn
  rcases of_field h with rfl | ⟨v, hv⟩
  · cases hn
  · rcases Fit.of_optional hv with ⟨-, rfl⟩ | ⟨y, rfl, hfit⟩
    · cases hn
    · cases hn
      exact Fit.holds_of_within hfit

theorem of_sectionOf {read : Fields → Checked α} {x : α}
    (h : sectionOf fields name read = .ok x) : ∃ own, read own = .ok x := by
  unfold sectionOf at h
  split at h
  · exact ⟨_, h⟩
  · exact ⟨_, h⟩
  · cases h

end Checked

/-! ## Sections -/

structure ReadingSettings.Fits (r : ReadingSettings) : Prop where
  timeout : Settings.timeoutBounds.Holds r.timeoutMs
  readTimeout : ∀ n, r.readTimeoutMs = some n → Settings.timeoutBounds.Holds n
  queue : Settings.queueBounds.Holds r.queueSize
  concurrency : Settings.concurrencyBounds.Holds r.maxConcurrent

structure MemorySettings.Fits (m : MemorySettings) : Prop where
  sources : ∀ n, m.maxSources = some n → Settings.memoryBounds.Holds n

structure LogSettings.Fits (l : LogSettings) : Prop where
  fileSize : Settings.fileSizeBounds.Holds l.maxFileSizeMb
  backups : Settings.backupBounds.Holds l.backupCount

/-- Every number among the settings lies within its bounds. -/
structure Settings.Fits (s : Settings) : Prop where
  reading : s.reading.Fits
  memory : s.memory.Fits
  log : s.log.Fits

namespace Settings

open Checked

variable {fields given : Fields} {s : Settings}

theorem readingIn_fits {r : ReadingSettings} (h : readingIn fields = .ok r) : r.Fits := by
  simp only [readingIn, seq_eq_ok_iff, Except.ok.injEq] at h
  obtain ⟨_, agent, ⟨_, limit, ⟨_, queue, ⟨_, since, ⟨_, perpetual, ⟨_, readTimeout, ⟨_, timeout,
    rfl, htimeout, rfl⟩, hreadTimeout, rfl⟩, -, rfl⟩, -, rfl⟩, hqueue, rfl⟩, hlimit, rfl⟩, -,
    rfl⟩ := h
  exact ⟨holds_of_field ⟨by decide, by simp [timeoutBounds]⟩ htimeout,
    holds_of_optional hreadTimeout,
    holds_of_field ⟨by decide, by simp [queueBounds]⟩ hqueue,
    holds_of_field ⟨by decide, by simp [concurrencyBounds]⟩ hlimit⟩

theorem memoryIn_fits {m : MemorySettings} (h : memoryIn fields = .ok m) : m.Fits := by
  unfold memoryIn at h
  generalize hfield : field fields _ _ _ _ = x at h
  cases x with
  | error fault => cases h
  | ok x =>
      cases h
      exact ⟨holds_of_optional hfield⟩

theorem logIn_fits {l : LogSettings} (h : logIn fields = .ok l) : l.Fits := by
  simp only [logIn, seq_eq_ok_iff, Except.ok.injEq] at h
  obtain ⟨_, console, ⟨_, structured, ⟨_, backups, ⟨_, size, ⟨_, path, ⟨_, level, rfl, -, rfl⟩, -,
    rfl⟩, hsize, rfl⟩, hbackups, rfl⟩, -, rfl⟩, -, rfl⟩ := h
  exact ⟨holds_of_field ⟨by decide, by simp [fileSizeBounds]⟩ hsize,
    holds_of_field ⟨by decide, by simp [backupBounds]⟩ hbackups⟩

theorem known_fits (h : known fields = .ok s) : s.Fits := by
  simp only [known, seq_eq_ok_iff, Except.ok.injEq] at h
  obtain ⟨_, debug, ⟨_, version, ⟨_, name, ⟨_, sources, ⟨_, log, ⟨_, memory, ⟨_, reading, rfl,
    hreading, rfl⟩, hmemory, rfl⟩, hlog, rfl⟩, -, rfl⟩, -, rfl⟩, -, rfl⟩, -, rfl⟩ := h
  obtain ⟨_, hreading⟩ := of_sectionOf hreading
  obtain ⟨_, hmemory⟩ := of_sectionOf hmemory
  obtain ⟨_, hlog⟩ := of_sectionOf hlog
  exact ⟨readingIn_fits hreading, memoryIn_fits hmemory, logIn_fits hlog⟩

theorem known_of_ofFields (h : ofFields fields = .ok s) : known fields = .ok s := by
  obtain ⟨f, u, hknown, -, rfl⟩ := seq_eq_ok_iff.mp h
  cases hk : known fields with
  | error fault =>
      rw [hk] at hknown
      cases hknown
  | ok settings =>
      rw [hk] at hknown
      cases hknown
      rfl

/-- Settings are read from what the environment and the values given by hand come to. -/
theorem exists_known_of_read {env : Environment} (h : read env given = .ok s) :
    ∃ fields, known fields = .ok s := by
  unfold read at h
  cases hgather : gather env with
  | error fault =>
      rw [hgather] at h
      cases h
  | ok gathered =>
      rw [hgather] at h
      exact ⟨_, known_of_ofFields h⟩

theorem read_of_load {env : Environment} {f f' : Folder} (h : load env f = .ok (s, f')) :
    read env [] = .ok s := by
  unfold load at h
  cases hread : read env [] with
  | error fault =>
      rw [hread] at h
      cases h
  | ok settings =>
      rw [hread] at h
      dsimp only at h
      cases hfolder : settings.makeLogFolder f with
      | error fault =>
          rw [hfolder] at h
          cases h
      | ok made =>
          rw [hfolder] at h
          cases h
          rfl

/-- **Settings that are read fit.** -/
theorem load_fits {env : Environment} {f f' : Folder} (h : load env f = .ok (s, f')) : s.Fits := by
  obtain ⟨fields, hknown⟩ := exists_known_of_read (read_of_load h)
  exact known_fits hknown

def standard : Settings where
  reading := ⟨10000, none, false, none, 500, 5, "FeedStream/1.0"⟩
  memory := ⟨none⟩
  log := ⟨.info, some "logs/feedstream.log", 10, 5, false, true⟩
  sources := []
  appName := "FeedStream"
  version := "1.0.0"
  debug := false

example : ofFields [] = .ok standard := rfl

end Settings

end FeedIntake
