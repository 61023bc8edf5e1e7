import FirmwareRollout.Settings.Basic
import FirmwareRollout.Settings.Environment
import FirmwareRollout.Toml.Document

/-!
Loading settings: from a TOML text, if there is one, and from environment variables, which go before
it. What nobody sets keeps its default; what is set has to be of the right kind, and what has no
meaning is passed over.
-/

namespace FirmwareRollout

/-- Why settings cannot be loaded. -/
inductive LoadFault where
  /-- The text is no TOML. -/
  | malformed
  /-- A value is of the wrong kind or out of range. -/
  | mismatch
  /-- A variable has the mark of a setting but no name. -/
  | nameless
deriving DecidableEq, Repr

def LoadFault.message : LoadFault → String
  | malformed => "the file is not TOML"
  | mismatch => "a setting has a value that does not fit"
  | nameless => "a variable names no setting"

namespace Settings

/-- Reads a part of a section, if it is there. -/
def field {α : Type} (part : String → Nat → Option Datum) (name : String) (position : Nat)
    (default : α) (read : Datum → Option α) : Option α :=
  match part name position with
  | some d => read d
  | none => some default

def databaseSection (d : Datum) : Option DatabaseSettings := do
  let part ← d.part?
  return {
    url := ← field part "url" 0 ({} : DatabaseSettings).url Datum.string?
    maxConnections :=
      ← field part "max_connections" 1 ({} : DatabaseSettings).maxConnections Datum.word32?
    minConnections :=
      ← field part "min_connections" 2 ({} : DatabaseSettings).minConnections Datum.word32?
    connectTimeoutSecs :=
      ← field part "connect_timeout_secs" 3 ({} : DatabaseSettings).connectTimeoutSecs
        Datum.word64? }

def schedulerSection (d : Datum) : Option SchedulerSettings := do
  let part ← d.part?
  return {
    pollIntervalSecs :=
      ← field part "poll_interval_secs" 0 ({} : SchedulerSettings).pollIntervalSecs Datum.word64?
    batchSize := ← field part "batch_size" 1 ({} : SchedulerSettings).batchSize Datum.word32?
    stepTimeoutSecs :=
      ← field part "step_timeout_secs" 2 ({} : SchedulerSettings).stepTimeoutSecs Datum.word64? }

def retrySection (d : Datum) : Option RetrySettings := do
  let part ← d.part?
  return {
    maxAttempts := ← field part "max_attempts" 0 ({} : RetrySettings).maxAttempts Datum.word32?
    baseDelaySecs :=
      ← field part "base_delay_secs" 1 ({} : RetrySettings).baseDelaySecs Datum.word64?
    maxDelaySecs :=
      ← field part "max_delay_secs" 2 ({} : RetrySettings).maxDelaySecs Datum.word64? }

def timingSection (d : Datum) : Option TimingSettings := do
  let part ← d.part?
  return {
    sessionMarginSecs :=
      ← field part "session_margin_secs" 0 ({} : TimingSettings).sessionMarginSecs Datum.word64?
    maxStepDelaySecs :=
      ← field part "max_step_delay_secs" 1 ({} : TimingSettings).maxStepDelaySecs Datum.word64? }

def collaboratorSection (d : Datum) : Option CollaboratorSettings := do
  let part ← d.part?
  return {
    url := ← field part "url" 0 ({} : CollaboratorSettings).url Datum.string?
    timeoutSecs :=
      ← field part "timeout_secs" 1 ({} : CollaboratorSettings).timeoutSecs Datum.word64? }

/-- The settings that members by name spell, if each is of the right kind. -/
def ofMembers (members : Datum.Members) : Option Settings := do
  let part := fun name (_ : Nat) => Datum.find? members name
  return {
    database := ← field part "database" 0 {} databaseSection
    scheduler := ← field part "scheduler" 1 {} schedulerSection
    retry := ← field part "retry" 2 {} retrySection
    timing := ← field part "timing" 3 {} timingSection
    collaborator := ← field part "collaborator" 4 {} collaboratorSection }

/-- Loads the settings of a TOML text, if there is one, and of the environment. -/
def load (text : Option String) (environment : List (String × String)) :
    Except LoadFault Settings :=
  match (text.getD "" |> Toml.parse?), Environment.members environment with
  | _, none => .error .nameless
  | none, some _ => .error .malformed
  | some file, some named =>
    match ofMembers (Datum.mergeMembers file named) with
    | some settings => .ok settings
    | none => .error .mismatch

/-- The settings that can be loaded, or else the defaults and the reason. -/
def loadOrDefault (text : Option String) (environment : List (String × String)) :
    Settings × Option LoadFault :=
  match load text environment with
  | .ok settings => (settings, none)
  | .error fault => ({}, some fault)

def summary (s : Settings) : String :=
  "collaborator=" ++ s.collaborator.url ++ " batch_size=" ++ toString s.scheduler.batchSize ++
    " poll_interval_secs=" ++ toString s.scheduler.pollIntervalSecs

end Settings

end FirmwareRollout
