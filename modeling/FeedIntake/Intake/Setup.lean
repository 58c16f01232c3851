import FeedIntake.Intake.Control
import FeedIntake.Settings

/-! # Setting up jobs and rounds

What is left open is taken from the settings. A job, a fetcher or a store that leaves nothing open
can be set up even where the settings cannot be read; a round needs them always.
-/

namespace FeedIntake

open Time (DateTime Instant)

/-- Settings that were read, or the reason why they cannot be. -/
abbrev SettingsOrFailure := Except Failure Settings

def SettingsOrFailure.take {α : Type} (s : SettingsOrFailure) (f : Settings → α) :
    Except Fault α :=
  (s.map f).mapError .failure

/-- Something given, or else taken from the settings. -/
def SettingsOrFailure.fallback {α : Type} (s : SettingsOrFailure) (given : Option α)
    (f : Settings → α) : Except Fault α :=
  match given with
  | some x => .ok x
  | none => s.take f

namespace Settings

/-- The threshold of the settings, or the first instant of all where they name none. -/
def threshold (s : Settings) : DateTime := (s.reading.publishedSince.getD .first).toDateTime

def fetcher (s : Settings) : Fetcher :=
  ⟨s.reading.readTimeoutMs.map Int.ofNat, s.reading.userAgent⟩

def snapshots (s : Settings) : Except Fault Snapshots :=
  Snapshots.new? (s.memory.maxSources.map Int.ofNat)

def queue (s : Settings) : RecordQueue := .ofCapacity s.reading.queueSize

end Settings

def JobSpec.ofGiven (settings : SettingsOrFailure) (source : String) (since : Option DateTime)
    (timeoutMs : Option Int) (perpetual : Option Bool) : Except Fault JobSpec := do
  let since ← settings.fallback since (·.threshold)
  let timeoutMs ← settings.fallback timeoutMs fun s => s.reading.timeoutMs
  let perpetual ← settings.fallback perpetual (·.reading.perpetual)
  return ⟨source, ← thresholdOf since, timeoutMs, perpetual⟩

def Fetcher.ofGiven (settings : SettingsOrFailure) (readTimeoutMs : Option Int)
    (userAgent : Option String) : Except Fault Fetcher :=
  match readTimeoutMs, userAgent with
  | some ms, some agent => .ok ⟨some ms, agent⟩
  | _, _ =>
      settings.take fun s =>
        ⟨readTimeoutMs <|> s.fetcher.readTimeoutMs, userAgent.getD s.fetcher.userAgent⟩

/-- A round over valid sources. A limit of nought stands for the one of the settings. -/
def RoundSpec.ofGiven (settings : Settings) (sources : List Value) (since : Option DateTime)
    (timeoutMs : Option Int) (perpetual : Option Bool) (limit : Option Int)
    (supplier : SupplierId) : Except Fault RoundSpec := do
  let urls ← (Url.validateAll sources).mapError fun u => .failure u.toFailure
  return {
    sources := urls
    since := since.getD settings.threshold
    timeoutMs := timeoutMs.getD settings.reading.timeoutMs
    perpetual := perpetual.getD settings.reading.perpetual
    supplier
    limit := (limit.filter (· != 0)).getD settings.reading.maxConcurrent }

end FeedIntake
