import FirmwareRollout.Worker.Cycle

/-!
The settings of a worker process, in five sections, with the value that each has where nobody sets
it, and the policies and worker that they stand for.
-/

namespace FirmwareRollout

/-- How to reach the database. -/
structure DatabaseSettings where
  url : String := "postgres://localhost/fuota"
  maxConnections : UInt32 := 10
  minConnections : UInt32 := 1
  connectTimeoutSecs : UInt64 := 5
deriving DecidableEq

/-- How often to look for due rollouts, how many to claim, and how long to wait for a step. -/
structure SchedulerSettings where
  pollIntervalSecs : UInt64 := 1
  batchSize : UInt32 := 10
  stepTimeoutSecs : UInt64 := 30
deriving DecidableEq

/-- How often and when to try a step again. -/
structure RetrySettings where
  maxAttempts : UInt32 := 10
  baseDelaySecs : UInt64 := 30
  maxDelaySecs : UInt64 := 900
deriving DecidableEq

/-- How long to wait between steps. -/
structure TimingSettings where
  sessionMarginSecs : UInt64 := 10
  maxStepDelaySecs : UInt64 := 86400
deriving DecidableEq

/-- How to reach the bridge to the network. -/
structure CollaboratorSettings where
  url : String := "http://localhost:8090"
  timeoutSecs : UInt64 := 10
deriving DecidableEq

/-- All settings of a worker process. -/
structure Settings where
  database : DatabaseSettings := {}
  scheduler : SchedulerSettings := {}
  retry : RetrySettings := {}
  timing : TimingSettings := {}
  collaborator : CollaboratorSettings := {}
deriving DecidableEq

namespace SchedulerSettings

def pollInterval (s : SchedulerSettings) : Duration := .ofSeconds s.pollIntervalSecs

def stepTimeout (s : SchedulerSettings) : Duration := .ofSeconds s.stepTimeoutSecs

end SchedulerSettings

/-- The policy for trying again; a step is tried at least once. -/
def RetrySettings.policy (s : RetrySettings) : RetryPolicy where
  maxAttempts := max s.maxAttempts 1
  baseDelay := .ofSeconds s.baseDelaySecs
  maxDelay := .ofSeconds s.maxDelaySecs

def TimingSettings.policy (s : TimingSettings) : TimingPolicy where
  sessionMargin := .ofSeconds s.sessionMarginSecs
  maxStepDelay := .ofSeconds s.maxStepDelaySecs

def Settings.worker (s : Settings) : Worker where
  machine := ⟨s.retry.policy, s.timing.policy⟩
  batchSize := s.scheduler.batchSize

end FirmwareRollout
