import FirmwareRollout.Time.Duration

/-!
The loop of a worker process: a cycle at once, then one at every tick of a clock, until the process
is asked to stop. A tick that a long cycle delays comes when the cycle ends, and the next one a full
interval after it. Times are nanoseconds since the start, and they have no bound. Cycles are never
cut short: what the loop leaves is the work of some number of whole cycles (`serve_eq_iterate`).
-/

namespace FirmwareRollout

/-- The loop cannot tick without time between the ticks. -/
inductive ServeFault where
  | zeroInterval
deriving DecidableEq, Repr

namespace Serve

/-- How late a tick may be before those after it are put off. -/
def tolerance : Nat := 5000000

/-- When the tick after one comes that was meant for `due` and came at `fired`. In the loop nothing
but a cycle makes a tick late: a process that is held up from outside has its ticks later than that.
Since times have no bound, there always is a next tick. A clock that can count no further than some
2⁶⁴ seconds has none after a late tick if the interval is nearly as long: `fired + period` lies
beyond its end. -/
def nextTick (period due fired : Nat) : Nat :=
  if due + tolerance < fired then fired + period else due + period

theorem lt_nextTick {period due fired : Nat} (h : 0 < period) :
    due < nextTick period due fired := by
  unfold nextTick
  split <;> omega

variable {σ : Type}

/-- The loop from the time `ready`, when the next tick is meant for `due` and the request to stop
comes at `stop`. A cycle gives the time that it took. If a tick and the request are both at hand,
`ties` says for each time whether the tick goes first; when it has run out, the request does. -/
def loop (period : Nat) (positive : 0 < period) (cycle : σ → Nat × σ) (stop : Nat)
    (ties : List Bool) (due ready : Nat) (s : σ) : σ :=
  let fired := max due ready
  let stopped := max stop ready
  if fired < stopped then
    loop period positive cycle stop ties (nextTick period due fired) (fired + (cycle s).1)
      (cycle s).2
  else if stopped < fired then s
  else
    match ties with
    | true :: ties =>
      loop period positive cycle stop ties (nextTick period due fired) (fired + (cycle s).1)
        (cycle s).2
    | _ => s
termination_by (ties.length, stop - due)
decreasing_by
  · have := @lt_nextTick period due (max due ready) positive
    have : Prod.Lex (· < ·) (· < ·) (ties.length, stop - nextTick period due (max due ready))
        (ties.length, stop - due) := .right _ (by omega)
    exact this
  · exact .left _ _ (Nat.lt_succ_self _)

/-- Runs cycles until the process is asked to stop. -/
def serve (interval : Duration) (cycle : σ → Nat × σ) (stop : Nat) (ties : List Bool) (s : σ) :
    Except ServeFault σ :=
  if h : 0 < interval.nanos then .ok (loop interval.nanos h cycle stop ties 0 0 s)
  else .error .zeroInterval

/-- What `n` cycles leave. -/
def iterate (cycle : σ → Nat × σ) : Nat → σ → σ
  | 0, s => s
  | n + 1, s => iterate cycle n (cycle s).2

theorem loop_eq_iterate (period : Nat) (positive : 0 < period) (cycle : σ → Nat × σ) (stop : Nat)
    (ties : List Bool) (due ready : Nat) (s : σ) :
    ∃ n, loop period positive cycle stop ties due ready s = iterate cycle n s := by
  fun_induction loop period positive cycle stop ties due ready s with
  | case1 _ _ _ _ _ _ _ ih =>
    obtain ⟨n, hn⟩ := ih
    exact ⟨n + 1, hn⟩
  | case2 => exact ⟨0, rfl⟩
  | case3 _ _ _ _ _ _ _ _ ih =>
    obtain ⟨n, hn⟩ := ih
    exact ⟨n + 1, hn⟩
  | case4 => exact ⟨0, rfl⟩

/-- A loop that stops leaves the work of some number of whole cycles. -/
theorem serve_eq_iterate {interval : Duration} {cycle : σ → Nat × σ} {stop : Nat} {ties : List Bool}
    {s s' : σ} (h : serve interval cycle stop ties s = .ok s') : ∃ n, s' = iterate cycle n s := by
  unfold serve at h
  split at h
  · obtain ⟨n, hn⟩ := loop_eq_iterate interval.nanos ‹_› cycle stop ties 0 0 s
    exact ⟨n, by rw [← hn]; exact (Except.ok.inj h).symm⟩
  · cases h

end Serve

end FirmwareRollout
