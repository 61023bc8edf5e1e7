import FirmwareRollout.Proofs.Bench.Process
import FirmwareRollout.Settings.Load

/-!
A worker process from its start to the request to stop, cycle after cycle. The loop is read off as
the list of the times at which its cycles start (`Serve.Timetable`), and what comes after a cycle is
told from its start and the time it takes (`Serve.Next`): the next tick is one interval away, and it
waits for the cycle to end. A request to a bridge that does not answer ends with its timeout, so
that no cycle holds the loop up for longer than that.

An interval of no length is loaded like any other, but the loop cannot run with it.

Main statement: `Bench.Process.polls_until_stopped`.
-/

namespace FirmwareRollout

namespace Serve

variable {σ : Type} {period stop : Nat} {cycle : σ → Nat × σ} {due ready : Nat} {s : σ}
  {starts : List Nat}

/-! ### When cycles start -/

/-- The times at which the cycles of a loop start from the time `ready` on, when the next tick is
meant for `due`. -/
inductive Timetable (period stop : Nat) (cycle : σ → Nat × σ) : Nat → Nat → σ → List Nat → Prop
  | stopped {due ready : Nat} {s : σ} (asked : stop ≤ max due ready) :
    Timetable period stop cycle due ready s []
  | tick {due ready : Nat} {s : σ} {starts : List Nat} (unasked : max due ready ≤ max stop ready)
    (rest : Timetable period stop cycle (nextTick period due (max due ready))
      (max due ready + (cycle s).1) (cycle s).2 starts) :
    Timetable period stop cycle due ready s (max due ready :: starts)

/-- The loop goes by a timetable. -/
theorem exists_timetable (positive : 0 < period) (cycle : σ → Nat × σ) (stop : Nat)
    (ties : List Bool) (due ready : Nat) (s : σ) :
    ∃ starts, Timetable period stop cycle due ready s starts ∧
      loop period positive cycle stop ties due ready s = iterate cycle starts.length s := by
  fun_induction loop period positive cycle stop ties due ready s with
  | case1 ties due ready s fired stopped early ih =>
    obtain ⟨starts, rest, same⟩ := ih
    exact ⟨_, .tick (Nat.le_of_lt early) rest, same⟩
  | case2 ties due ready s fired stopped _ late =>
    exact ⟨[], .stopped (Nat.le_trans (Nat.le_max_left ..) (Nat.le_of_lt late)), rfl⟩
  | case3 due ready s fired stopped _ late ties ih =>
    obtain ⟨starts, rest, same⟩ := ih
    exact ⟨_, .tick (Nat.le_of_not_lt late) rest, same⟩
  | case4 ties due ready s fired stopped early =>
    exact ⟨[], .stopped (Nat.le_trans (Nat.le_max_left ..) (Nat.le_of_not_lt early)), rfl⟩

/-- The time that cycle number `i` takes. -/
def lasts (cycle : σ → Nat × σ) (s : σ) (i : Nat) : Nat := (cycle (iterate cycle i s)).1

/-- What comes after a cycle that has started at `a` and has taken `d`: the next one when its tick
is due and the cycle has ended, or none if by then the process has been asked to stop. The tick is
due one interval after `a`, or a little earlier where `a` was late. -/
inductive Next (period stop a d : Nat) : Option Nat → Prop
  | cycle (due : Nat) (soon : due ≤ a + period) (late : a + period ≤ due + tolerance)
    (unasked : max due (a + d) ≤ max stop (a + d)) : Next period stop a d (some (max due (a + d)))
  | stop (due : Nat) (soon : due ≤ a + period) (late : a + period ≤ due + tolerance)
    (asked : stop ≤ max due (a + d)) : Next period stop a d none

theorem nextTick_bounds (period : Nat) (h : due ≤ ready) :
    nextTick period due ready ≤ ready + period ∧
      ready + period ≤ nextTick period due ready + tolerance := by
  unfold nextTick
  split <;> omega

theorem Timetable.next (h : Timetable period stop cycle due ready s starts) :
    ∀ i a, starts[i]? = some a → Next period stop a (lasts cycle s i) starts[i + 1]? := by
  induction h with
  | stopped => exact fun i a found => nomatch found
  | @tick due ready s starts unasked rest ih =>
    intro i a found
    cases i with
    | zero =>
      obtain rfl : max due ready = a := Option.some.inj found
      obtain ⟨soon, late⟩ := nextTick_bounds period (Nat.le_max_left due ready)
      cases rest with
      | stopped asked => exact .stop _ soon late asked
      | tick unasked => exact .cycle _ soon late unasked
    | succ i => exact ih i a found

theorem Timetable.first (h : Timetable period stop cycle due ready s starts)
    (early : max due ready < stop) : starts[0]? = some (max due ready) := by
  cases h with
  | stopped asked => omega
  | tick => rfl

/-- Where no cycle is longer than the interval, they start at its multiples. -/
theorem Timetable.regular (h : Timetable period stop cycle due ready s starts) (free : ready ≤ due)
    (short : ∀ s, (cycle s).1 ≤ period) :
    ∀ i a, starts[i]? = some a → a = due + i * period := by
  induction h with
  | stopped => exact fun i a found => nomatch found
  | @tick due ready s starts unasked rest ih =>
    have fired : max due ready = due := Nat.max_eq_left free
    have next : nextTick period due (max due ready) = due + period := by
      rw [fired, nextTick, if_neg (by omega)]
    rw [next, fired] at ih
    intro i a found
    cases i with
    | zero =>
      rw [Nat.zero_mul, Nat.add_zero, ← fired]
      exact (Option.some.inj found).symm
    | succ i =>
      rw [ih (Nat.add_le_add_left (short s) due) i a found, Nat.succ_mul]
      omega

end Serve

namespace Bench

/-! ### How long cycles take -/

theorem Act.elapsed_le (act : Act) (timeout : Duration) : act.elapsed timeout ≤ timeout.nanos := by
  unfold elapsed
  split
  · next intime =>
    simp only [inTime, Bool.and_eq_true, Bool.or_eq_true, decide_eq_true_eq] at intime
    omega
  · exact Nat.le_refl _

theorem length_le (flights : Rig.Flights) (timeout : Duration) :
    flights.length timeout ≤ timeout.nanos := by
  induction flights with
  | nil => exact Nat.zero_le _
  | cons flight flights ih =>
    rw [Process.length_cons]
    exact Nat.max_le.2 ⟨flight.2.elapsed_le timeout, ih⟩

namespace Process

/-- **No cycle takes longer than a request may**: all requests are under way at once. -/
theorem cycle_le (settings : Settings) (state : Instant × Rig) :
    (cycle settings state).1 ≤ settings.scheduler.stepTimeout.nanos := by
  rw [cycle, Rig.runCycle_eq]
  exact length_le _ _

/-- **A process polls until it is asked to stop**, whatever its settings are, if the interval has a
length: whatever is stored and planted, whatever the bridge answers or fails to answer. The first
cycle starts at once, and each other one an interval after the one before, or when that has ended if
it takes longer; the loop ends only when the process has been asked to. What it leaves is the work of
all these cycles. Where requests may take no longer than the interval, the cycles start at its
multiples. -/
theorem polls_until_stopped {settings : Settings}
    (polls : settings.scheduler.pollIntervalSecs ≠ 0) (rig : Rig) (clock : Instant) (stop : Nat)
    (ties : List Bool) : ∃ starts : List Nat,
      Serve.serve settings.scheduler.pollInterval (cycle settings) stop ties (clock, rig) =
        .ok (Serve.iterate (cycle settings) starts.length (clock, rig)) ∧
      (0 < stop → starts[0]? = some 0) ∧
      (∀ i a, starts[i]? = some a → Serve.Next settings.scheduler.pollInterval.nanos stop a
        (Serve.lasts (cycle settings) (clock, rig) i) starts[i + 1]?) ∧
      (∀ i, Serve.lasts (cycle settings) (clock, rig) i ≤
        settings.scheduler.stepTimeout.nanos) ∧
      (settings.scheduler.stepTimeout.nanos ≤ settings.scheduler.pollInterval.nanos →
        ∀ i a, starts[i]? = some a → a = i * settings.scheduler.pollInterval.nanos) := by
  have positive : 0 < settings.scheduler.pollInterval.nanos := by
    have seconds : 0 < settings.scheduler.pollIntervalSecs.toNat :=
      Nat.pos_of_ne_zero fun h => polls (UInt64.toNat_inj.1 h)
    exact Nat.mul_pos seconds (by decide)
  obtain ⟨starts, timetable, same⟩ :=
    Serve.exists_timetable positive (cycle settings) stop ties 0 0 (clock, rig)
  refine ⟨starts, by rw [Serve.serve, dif_pos positive, same], timetable.first, timetable.next,
    fun i => cycle_le settings _, fun short i a found => ?_⟩
  have multiple := timetable.regular (Nat.le_refl 0)
    (fun s => Nat.le_trans (cycle_le settings s) short) i a found
  rwa [Nat.zero_add] at multiple

/-- A bridge that never answers holds the loop up for no longer than the time for an answer, which by
default is thirty seconds: when the first cycle has given up waiting, the second one starts. -/
theorem polls_past_silence : ({} : Settings).scheduler.pollIntervalSecs ≠ 0 ∧ ∃ starts : List Nat,
    Serve.serve ({} : Settings).scheduler.pollInterval (cycle {}) 45000000000 [] (.epoch, silent) =
      .ok (Serve.iterate (cycle {}) starts.length (.epoch, silent)) ∧
    starts[0]? = some 0 ∧ starts[1]? = some 30000000000 := by
  have polls : ({} : Settings).scheduler.pollIntervalSecs ≠ 0 := by decide
  obtain ⟨starts, served, first, next, -⟩ :=
    polls_until_stopped polls silent .epoch 45000000000 []
  have hung : Serve.lasts (cycle {}) (.epoch, silent) 0 = 30000000000 := by decide +kernel
  have second : Serve.Next _ 45000000000 0 30000000000 starts[1]? :=
    hung ▸ next 0 0 (first (by decide))
  -- the tick of the second cycle comes a second after the start, long before the first one ends
  have tick : 0 + ({} : Settings).scheduler.pollInterval.nanos = 1000000000 := by decide
  refine ⟨polls, starts, served, first (by decide), ?_⟩
  generalize starts[1]? = start at second ⊢
  rcases second with ⟨due, soon, -, -⟩ | ⟨due, soon, -, asked⟩
  · exact congrArg some (Nat.max_eq_right (by omega))
  · omega

/-- Settings with an interval of no length are loaded, and no process can run with them. -/
theorem crashes_without_interval : ∃ settings,
    Settings.load (some "[scheduler]\npoll_interval_secs = 0") [] = .ok settings ∧
    ∀ rig clock stop ties, Serve.serve settings.scheduler.pollInterval (cycle settings) stop ties
      (clock, rig) = .error .zeroInterval := by
  have loaded : (Settings.load (some "[scheduler]\npoll_interval_secs = 0") []).toOption =
      some { scheduler := { pollIntervalSecs := 0 } } := by decide +kernel
  generalize Settings.load (some "[scheduler]\npoll_interval_secs = 0") [] = result at loaded
  obtain _ | settings := result
  · cases loaded
  · obtain rfl := Option.some.inj loaded
    exact ⟨_, rfl, fun _ _ _ _ => rfl⟩

end Process

end Bench

end FirmwareRollout
