import FirmwareRollout.Proofs.Settings.Merge
import FirmwareRollout.Settings.Load

/-!
The fourteen settings. Each is a key of a table with a kind and a default (`Setting`), and a record
of settings is right for some members if each of its fields has the value that stands there, or else
its default (`Setting.Has`).

Main statement: `Settings.ofMembers_eq_some_iff`.
-/

namespace FirmwareRollout

namespace Datum

/-! ### Words -/

variable {d : Datum}

theorem natBelow?_eq_some_iff {bound n : Nat} :
    d.natBelow? bound = some n ↔ d = .integer n ∧ n < bound := by
  cases d with
  | integer m =>
    rw [natBelow?, integer.injEq, Option.ite_none_right_eq_some, Option.some.injEq]
    omega
  | _ => exact ⟨nofun, nofun⟩

/-- Whole numbers that are words of some width, which are the numbers below a bound. -/
theorem map_natBelow?_eq_some_iff {α : Type} {bound : Nat} {word : Nat → α} {number : α → Nat}
    (number_word : ∀ n < bound, number (word n) = n)
    (word_number : ∀ v, number v < bound ∧ word (number v) = v) {v : α} :
    (d.natBelow? bound).map word = some v ↔ d = .integer (number v) := by
  simp only [Option.map_eq_some_iff, natBelow?_eq_some_iff]
  constructor
  · rintro ⟨n, ⟨rfl, small⟩, rfl⟩
    rw [number_word n small]
  · rintro rfl
    exact ⟨number v, ⟨rfl, (word_number v).1⟩, (word_number v).2⟩

theorem word32?_eq_some_iff {v : UInt32} : d.word32? = some v ↔ d = .integer v.toNat :=
  map_natBelow?_eq_some_iff (fun _ small => UInt32.toNat_ofNat_of_lt' small)
    fun v => ⟨v.toNat_lt, UInt32.ofNat_toNat⟩

theorem word64?_eq_some_iff {v : UInt64} : d.word64? = some v ↔ d = .integer v.toNat :=
  map_natBelow?_eq_some_iff (fun _ small => UInt64.toNat_ofNat_of_lt' small)
    fun v => ⟨v.toNat_lt, UInt64.ofNat_toNat⟩

end Datum

/-! ### Kinds of values -/

/-- The kinds of value that a setting can have. -/
inductive Kind where
  | text
  | word32
  | word64

namespace Kind

abbrev Value : Kind → Type
  | text => String
  | word32 => UInt32
  | word64 => UInt64

/-- What stands for a value: a text for itself, a character for a text, and for a word the whole
number that it is. -/
inductive Stands : (k : Kind) → Datum → k.Value → Prop
  | text (s : String) : Stands text (.text s) s
  | character (c : Char) : Stands text (.character c) (String.singleton c)
  | word32 (v : UInt32) : Stands word32 (.integer v.toNat) v
  | word64 (v : UInt64) : Stands word64 (.integer v.toNat) v

def read : (k : Kind) → Datum → Option k.Value
  | text => Datum.string?
  | word32 => Datum.word32?
  | word64 => Datum.word64?

variable {k : Kind} {d : Datum} {v : k.Value}

theorem read_eq_some_iff : k.read d = some v ↔ k.Stands d v := by
  cases k with
  | text =>
    cases d with
    | text s =>
      constructor
      · rintro ⟨⟩
        exact .text _
      · rintro ⟨⟩
        rfl
    | character c =>
      constructor
      · rintro ⟨⟩
        exact .character c
      · rintro ⟨⟩
        rfl
    | _ => exact ⟨nofun, nofun⟩
  | word32 =>
    refine Datum.word32?_eq_some_iff.trans ⟨?_, ?_⟩
    · rintro rfl
      exact .word32 v
    · rintro ⟨⟩
      rfl
  | word64 =>
    refine Datum.word64?_eq_some_iff.trans ⟨?_, ?_⟩
    · rintro rfl
      exact .word64 v
    · rintro ⟨⟩
      rfl

theorem stands_outline : k.Stands d.outline v ↔ k.Stands d v := by
  cases d with
  | table ms => constructor <;> nofun
  | _ => exact .rfl

end Kind

/-! ### The fourteen settings -/

/-- The settings that there are, section by section. -/
inductive Setting where
  | databaseUrl
  | maxConnections
  | minConnections
  | connectTimeout
  | pollInterval
  | batchSize
  | stepTimeout
  | maxAttempts
  | baseDelay
  | maxDelay
  | sessionMargin
  | maxStepDelay
  | collaboratorUrl
  | collaboratorTimeout

namespace Setting

def table : Setting → String
  | databaseUrl | maxConnections | minConnections | connectTimeout => "database"
  | pollInterval | batchSize | stepTimeout => "scheduler"
  | maxAttempts | baseDelay | maxDelay => "retry"
  | sessionMargin | maxStepDelay => "timing"
  | collaboratorUrl | collaboratorTimeout => "collaborator"

def key : Setting → String
  | databaseUrl => "url"
  | maxConnections => "max_connections"
  | minConnections => "min_connections"
  | connectTimeout => "connect_timeout_secs"
  | pollInterval => "poll_interval_secs"
  | batchSize => "batch_size"
  | stepTimeout => "step_timeout_secs"
  | maxAttempts => "max_attempts"
  | baseDelay => "base_delay_secs"
  | maxDelay => "max_delay_secs"
  | sessionMargin => "session_margin_secs"
  | maxStepDelay => "max_step_delay_secs"
  | collaboratorUrl => "url"
  | collaboratorTimeout => "timeout_secs"

def kind : Setting → Kind
  | databaseUrl | collaboratorUrl => .text
  | maxConnections | minConnections | batchSize | maxAttempts => .word32
  | connectTimeout | pollInterval | stepTimeout | baseDelay | maxDelay | sessionMargin
  | maxStepDelay | collaboratorTimeout => .word64

/-- The value where nothing is given. -/
def default : (s : Setting) → s.kind.Value
  | databaseUrl => "postgres://localhost/fuota"
  | maxConnections => (10 : UInt32)
  | minConnections => (1 : UInt32)
  | connectTimeout => (5 : UInt64)
  | pollInterval => (1 : UInt64)
  | batchSize => (10 : UInt32)
  | stepTimeout => (30 : UInt64)
  | maxAttempts => (10 : UInt32)
  | baseDelay => (30 : UInt64)
  | maxDelay => (900 : UInt64)
  | sessionMargin => (10 : UInt64)
  | maxStepDelay => (86400 : UInt64)
  | collaboratorUrl => "http://localhost:8090"
  | collaboratorTimeout => (10 : UInt64)

/-- The field of a settings record. -/
def get : (s : Setting) → Settings → s.kind.Value
  | databaseUrl => (·.database.url)
  | maxConnections => (·.database.maxConnections)
  | minConnections => (·.database.minConnections)
  | connectTimeout => (·.database.connectTimeoutSecs)
  | pollInterval => (·.scheduler.pollIntervalSecs)
  | batchSize => (·.scheduler.batchSize)
  | stepTimeout => (·.scheduler.stepTimeoutSecs)
  | maxAttempts => (·.retry.maxAttempts)
  | baseDelay => (·.retry.baseDelaySecs)
  | maxDelay => (·.retry.maxDelaySecs)
  | sessionMargin => (·.timing.sessionMarginSecs)
  | maxStepDelay => (·.timing.maxStepDelaySecs)
  | collaboratorUrl => (·.collaborator.url)
  | collaboratorTimeout => (·.collaborator.timeoutSecs)

/-- The settings record with given fields. -/
def assemble (value : (s : Setting) → s.kind.Value) : Settings where
  database := ⟨value databaseUrl, value maxConnections, value minConnections, value connectTimeout⟩
  scheduler := ⟨value pollInterval, value batchSize, value stepTimeout⟩
  retry := ⟨value maxAttempts, value baseDelay, value maxDelay⟩
  timing := ⟨value sessionMargin, value maxStepDelay⟩
  collaborator := ⟨value collaboratorUrl, value collaboratorTimeout⟩

theorem get_assemble (value : (s : Setting) → s.kind.Value) (s : Setting) :
    s.get (assemble value) = value s := by
  cases s <;> rfl

variable {s : Setting} {given : Option Datum} {v : s.kind.Value}

/-- A setting has the value that is given, or else its default. -/
def Has (s : Setting) (given : Option Datum) (v : s.kind.Value) : Prop :=
  match given with
  | none => v = s.default
  | some d => s.kind.Stands d v

/-- What is given, if anything is, is of the setting's kind. -/
def Fits (s : Setting) (given : Option Datum) : Prop := ∀ d, given = some d → ∃ v, s.kind.Stands d v

theorem fits_iff : s.Fits given ↔ ∃ v, s.Has given v := by
  cases given with
  | none => exact ⟨fun _ => ⟨s.default, rfl⟩, fun _ => nofun⟩
  | some d => exact ⟨fun h => h d rfl, by rintro h _ ⟨⟩; exact h⟩

theorem Has.unique {w : s.kind.Value} (hv : s.Has given v) (hw : s.Has given w) : v = w := by
  cases given with
  | none => exact hv.trans hw.symm
  | some d =>
    exact Option.some.inj ((Kind.read_eq_some_iff.2 hv).symm.trans (Kind.read_eq_some_iff.2 hw))

theorem has_outline : s.Has (given.map Datum.outline) v ↔ s.Has given v := by
  cases given with
  | none => exact .rfl
  | some d => exact Kind.stands_outline

theorem has_congr {other : Option Datum}
    (same : given.map Datum.outline = other.map Datum.outline) : s.Has given v ↔ s.Has other v := by
  rw [← has_outline, same, has_outline]

/-- One record has all the values that are given, if each fits. -/
theorem exists_has_iff {given : Setting → Option Datum} :
    (∃ settings, ∀ s : Setting, s.Has (given s) (s.get settings)) ↔
      ∀ s : Setting, s.Fits (given s) := by
  constructor
  · rintro ⟨settings, h⟩ s
    exact fits_iff.2 ⟨_, h s⟩
  · intro h
    obtain ⟨value, has⟩ := Classical.axiomOfChoice fun s => fits_iff.1 (h s)
    exact ⟨assemble value, fun s => by rw [get_assemble]; exact has s⟩

theorem field_eq_some_iff (s : Setting) {v : s.kind.Value} {members : Datum.Members}
    {position : Nat} :
    Settings.field (fun name _ => Datum.find? members name) s.key position s.default s.kind.read =
      some v ↔ s.Has (Datum.find? members s.key) v := by
  rw [Settings.field]
  cases Datum.find? members s.key with
  | none => exact ⟨fun h => (Option.some.inj h).symm, fun h => congrArg some h.symm⟩
  | some d => exact Kind.read_eq_some_iff

end Setting

namespace Settings

open Setting

variable {members : Datum.Members}

theorem databaseSection_eq_some_iff {x : DatabaseSettings} :
    databaseSection (.table members) = some x ↔
      databaseUrl.Has (Datum.find? members "url") x.url ∧
      maxConnections.Has (Datum.find? members "max_connections") x.maxConnections ∧
      minConnections.Has (Datum.find? members "min_connections") x.minConnections ∧
      connectTimeout.Has (Datum.find? members "connect_timeout_secs") x.connectTimeoutSecs := by
  simp only [databaseSection, Datum.part?, Option.bind_eq_bind, Option.bind_some,
    Option.bind_eq_some_iff]
  constructor
  · rintro ⟨_, h₁, _, h₂, _, h₃, _, h₄, ⟨⟩⟩
    exact ⟨(field_eq_some_iff databaseUrl).1 h₁, (field_eq_some_iff maxConnections).1 h₂,
      (field_eq_some_iff minConnections).1 h₃, (field_eq_some_iff connectTimeout).1 h₄⟩
  · rintro ⟨h₁, h₂, h₃, h₄⟩
    exact ⟨_, (field_eq_some_iff databaseUrl).2 h₁, _, (field_eq_some_iff maxConnections).2 h₂,
      _, (field_eq_some_iff minConnections).2 h₃, _, (field_eq_some_iff connectTimeout).2 h₄, rfl⟩

theorem schedulerSection_eq_some_iff {x : SchedulerSettings} :
    schedulerSection (.table members) = some x ↔
      pollInterval.Has (Datum.find? members "poll_interval_secs") x.pollIntervalSecs ∧
      batchSize.Has (Datum.find? members "batch_size") x.batchSize ∧
      stepTimeout.Has (Datum.find? members "step_timeout_secs") x.stepTimeoutSecs := by
  simp only [schedulerSection, Datum.part?, Option.bind_eq_bind, Option.bind_some,
    Option.bind_eq_some_iff]
  constructor
  · rintro ⟨_, h₁, _, h₂, _, h₃, ⟨⟩⟩
    exact ⟨(field_eq_some_iff pollInterval).1 h₁, (field_eq_some_iff batchSize).1 h₂,
      (field_eq_some_iff stepTimeout).1 h₃⟩
  · rintro ⟨h₁, h₂, h₃⟩
    exact ⟨_, (field_eq_some_iff pollInterval).2 h₁, _, (field_eq_some_iff batchSize).2 h₂,
      _, (field_eq_some_iff stepTimeout).2 h₃, rfl⟩

theorem retrySection_eq_some_iff {x : RetrySettings} :
    retrySection (.table members) = some x ↔
      maxAttempts.Has (Datum.find? members "max_attempts") x.maxAttempts ∧
      baseDelay.Has (Datum.find? members "base_delay_secs") x.baseDelaySecs ∧
      maxDelay.Has (Datum.find? members "max_delay_secs") x.maxDelaySecs := by
  simp only [retrySection, Datum.part?, Option.bind_eq_bind, Option.bind_some,
    Option.bind_eq_some_iff]
  constructor
  · rintro ⟨_, h₁, _, h₂, _, h₃, ⟨⟩⟩
    exact ⟨(field_eq_some_iff maxAttempts).1 h₁, (field_eq_some_iff baseDelay).1 h₂,
      (field_eq_some_iff maxDelay).1 h₃⟩
  · rintro ⟨h₁, h₂, h₃⟩
    exact ⟨_, (field_eq_some_iff maxAttempts).2 h₁, _, (field_eq_some_iff baseDelay).2 h₂,
      _, (field_eq_some_iff maxDelay).2 h₃, rfl⟩

theorem timingSection_eq_some_iff {x : TimingSettings} :
    timingSection (.table members) = some x ↔
      sessionMargin.Has (Datum.find? members "session_margin_secs") x.sessionMarginSecs ∧
      maxStepDelay.Has (Datum.find? members "max_step_delay_secs") x.maxStepDelaySecs := by
  simp only [timingSection, Datum.part?, Option.bind_eq_bind, Option.bind_some,
    Option.bind_eq_some_iff]
  constructor
  · rintro ⟨_, h₁, _, h₂, ⟨⟩⟩
    exact ⟨(field_eq_some_iff sessionMargin).1 h₁, (field_eq_some_iff maxStepDelay).1 h₂⟩
  · rintro ⟨h₁, h₂⟩
    exact ⟨_, (field_eq_some_iff sessionMargin).2 h₁, _, (field_eq_some_iff maxStepDelay).2 h₂, rfl⟩

theorem collaboratorSection_eq_some_iff {x : CollaboratorSettings} :
    collaboratorSection (.table members) = some x ↔
      collaboratorUrl.Has (Datum.find? members "url") x.url ∧
      collaboratorTimeout.Has (Datum.find? members "timeout_secs") x.timeoutSecs := by
  simp only [collaboratorSection, Datum.part?, Option.bind_eq_bind, Option.bind_some,
    Option.bind_eq_some_iff]
  constructor
  · rintro ⟨_, h₁, _, h₂, ⟨⟩⟩
    exact ⟨(field_eq_some_iff collaboratorUrl).1 h₁, (field_eq_some_iff collaboratorTimeout).1 h₂⟩
  · rintro ⟨h₁, h₂⟩
    exact ⟨_, (field_eq_some_iff collaboratorUrl).2 h₁,
      _, (field_eq_some_iff collaboratorTimeout).2 h₂, rfl⟩

/-- A table that is not there is read as an empty one. -/
theorem field_of_isTable {α : Type} {ms : Datum.Members} (name : String) {position : Nat}
    (default : α) (read : Datum → Option α) (h : Datum.IsTable ms name)
    (empty : read (.table []) = some default) :
    field (fun name _ => Datum.find? ms name) name position default read =
      read (.table (Datum.contents ms name)) := by
  rw [field]
  rcases Datum.find?_of_isTable h with ⟨h, e⟩ | h
  · rw [h, e, empty]
  · rw [h]

/-- Members spell settings exactly if each of the fourteen has the value that is given for it. -/
theorem ofMembers_eq_some_iff {ms : Datum.Members} {settings : Settings}
    (h : ∀ s : Setting, Datum.IsTable ms s.table) : ofMembers ms = some settings ↔
      ∀ s : Setting, s.Has (Datum.at? ms s.table s.key) (s.get settings) := by
  simp only [ofMembers, Option.bind_eq_bind, Option.bind_eq_some_iff]
  rw [field_of_isTable "database" {} databaseSection (h databaseUrl) rfl,
    field_of_isTable "scheduler" {} schedulerSection (h pollInterval) rfl,
    field_of_isTable "retry" {} retrySection (h maxAttempts) rfl,
    field_of_isTable "timing" {} timingSection (h sessionMargin) rfl,
    field_of_isTable "collaborator" {} collaboratorSection (h collaboratorUrl) rfl]
  simp only [databaseSection_eq_some_iff, schedulerSection_eq_some_iff, retrySection_eq_some_iff,
    timingSection_eq_some_iff, collaboratorSection_eq_some_iff]
  constructor
  · rintro ⟨_, ⟨url, most, least, wait⟩, _, ⟨poll, batch, step⟩, _, ⟨attempts, base, cap⟩,
      _, ⟨margin, delay⟩, _, ⟨bridge, answer⟩, ⟨⟩⟩ s
    cases s <;> assumption
  · intro h
    exact ⟨_, ⟨h databaseUrl, h maxConnections, h minConnections, h connectTimeout⟩,
      _, ⟨h pollInterval, h batchSize, h stepTimeout⟩, _, ⟨h maxAttempts, h baseDelay, h maxDelay⟩,
      _, ⟨h sessionMargin, h maxStepDelay⟩, _, ⟨h collaboratorUrl, h collaboratorTimeout⟩, rfl⟩

end Settings

end FirmwareRollout
