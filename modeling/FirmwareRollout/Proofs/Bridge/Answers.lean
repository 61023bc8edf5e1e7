import FirmwareRollout.Bridge.Http

/-!
What the bridge can say to a step. An exchange either brings a report (`Reports`), or rejects the
step by its status (`Rejects`), or does neither; the first two exclude one another. Each of the
three has one result, and the last one is always worth another attempt.

Main statement: `answers_are_classified`.
-/

namespace FirmwareRollout

/-! ### Reports -/

namespace ActionReport

variable {r : ActionReport}

theorem outcome_advance_iff : r.outcome = .advance ↔ r.status = .completed := by
  unfold outcome
  cases r.status <;> simp

theorem outcome_retry_iff : (∃ reason, r.outcome = .retry reason) ↔ r.status = .pending := by
  unfold outcome
  cases r.status <;> simp

theorem outcome_fatal_iff : (∃ reason, r.outcome = .fatal reason) ↔ r.status = .rejected := by
  unfold outcome
  cases r.status <;> simp

end ActionReport

namespace Http

/-! ### Exchanges -/

namespace Exchange

/-- The whole of a reply came, its status is one of success, and its body is that report. -/
def Reports (e : Exchange) (report : ActionReport) : Prop :=
  ∃ r, e.final? = some r ∧ (200 ≤ r.code ∧ r.code < 300) ∧ r.complete = true ∧
    (Json.Value.ofBytes? r.body).bind ActionReport.ofJson? = some report

/-- A reply came whose status says that the step can never be done. -/
def Rejects (e : Exchange) : Prop := ∃ r, e.final? = some r ∧ (r.code = 409 ∨ r.code = 422)

variable {e : Exchange} {report : ActionReport}

theorem Reports.unique {report' : ActionReport} (h : e.Reports report) (h' : e.Reports report') :
    report' = report := by
  obtain ⟨r, final, -, -, body⟩ := h
  obtain ⟨r', final', -, -, body'⟩ := h'
  obtain rfl := Option.some.inj (final.symm.trans final')
  exact Option.some.inj (body'.symm.trans body)

theorem Reports.exists_iff (h : e.Reports report) {P : ActionReport → Prop} :
    (∃ report, e.Reports report ∧ P report) ↔ P report := by
  constructor
  · rintro ⟨report', h', p⟩
    exact h.unique h' ▸ p
  · exact fun p => ⟨report, h, p⟩

theorem Reports.forall_iff (h : e.Reports report) {P : ActionReport → Prop} :
    (∀ report, e.Reports report → P report) ↔ P report :=
  ⟨fun p => p report h, fun p _ h' => h.unique h' ▸ p⟩

theorem Reports.not_rejects (h : e.Reports report) : ¬e.Rejects := by
  rintro ⟨r', final', code⟩
  obtain ⟨r, final, success, -⟩ := h
  obtain rfl := Option.some.inj (final.symm.trans final')
  omega

/-! ### Attempts -/

theorem Reports.attempt (h : e.Reports report) (stage : Stage) :
    e.attempt stage = .reported report := by
  obtain ⟨r, final, success, complete, body⟩ := h
  simp only [Exchange.attempt, final, if_pos success, complete, body, if_true]

theorem Rejects.attempt (h : e.Rejects) (stage : Stage) :
    ∃ reason, e.attempt stage = .reported (.rejectedFor reason) := by
  obtain ⟨r, final, code⟩ := h
  have other : ¬(200 ≤ r.code ∧ r.code < 300) := by omega
  simp only [Exchange.attempt, final, if_neg other, if_pos code]
  exact ⟨_, rfl⟩

/-- What neither reports nor rejects is an error that may pass. -/
theorem attempt_of_neither (silent : ∀ report, ¬e.Reports report) (accepted : ¬e.Rejects)
    (stage : Stage) : ∃ error, error.isTransient = true ∧ e.attempt stage = .failed error := by
  unfold Exchange.attempt
  cases final : e.final? with
  | none => exact ⟨_, rfl, rfl⟩
  | some r =>
    simp only
    split
    · next success =>
      split
      · next complete =>
        cases body : (Json.Value.ofBytes? r.body).bind ActionReport.ofJson? with
        | none => exact ⟨_, rfl, rfl⟩
        | some report => exact absurd ⟨r, final, success, complete, body⟩ (silent report)
      · exact ⟨_, rfl, rfl⟩
    · split
      · next code => exact absurd ⟨r, final, code⟩ accepted
      · exact ⟨_, rfl, rfl⟩

end Exchange

/-! ### Results -/

section Results

variable {timeout : Duration} {bridge : StepRequest → Option Exchange} {r : StepRequest}
  {e : Exchange} {report : ActionReport}

theorem execute_of_late (late : bridge r = none) :
    execute timeout bridge r = ⟨.retry ("timed out after " ++ timeout.text), []⟩ := by
  rw [execute, late]
  rfl

theorem execute_of_reports (seen : bridge r = some e) (h : e.Reports report) :
    execute timeout bridge r = ⟨report.outcome, report.devices⟩ := by
  simp only [execute, seen, h.attempt]
  rfl

theorem execute_of_rejects (seen : bridge r = some e) (h : e.Rejects) :
    ∃ reason, execute timeout bridge r = ⟨.fatal reason, []⟩ := by
  obtain ⟨reason, attempt⟩ := h.attempt r.stage
  refine ⟨reason, ?_⟩
  simp only [execute, seen, attempt]
  rfl

theorem execute_of_neither (seen : bridge r = some e) (silent : ∀ report, ¬e.Reports report)
    (accepted : ¬e.Rejects) : ∃ reason, execute timeout bridge r = ⟨.retry reason, []⟩ := by
  obtain ⟨error, transient, attempt⟩ := Exchange.attempt_of_neither silent accepted r.stage
  refine ⟨error.message, ?_⟩
  simp only [execute, seen, attempt, Attempt.result, transient, if_true]

end Results

/-- **Answers are classified.** A request that is not over in time is to be made again. What is over
ends the rollout exactly if it rejects the step, by its status or in a report, advances it exactly if
it reports that the step is done, and else is worth another attempt. The outcomes of devices are
those of the report, if there is one. -/
theorem answers_are_classified (timeout : Duration) (bridge : StepRequest → Option Exchange)
    (d : Deployment) (pending : List DevEui) :
    (bridge (.ofDeployment d pending) = none →
      ∃ reason, execute timeout bridge (.ofDeployment d pending) = ⟨.retry reason, []⟩) ∧
    ∀ e, bridge (.ofDeployment d pending) = some e → ∃ outcome devices,
      execute timeout bridge (.ofDeployment d pending) = ⟨outcome, devices⟩ ∧
      ((∃ reason, outcome = .fatal reason) ↔
        e.Rejects ∨ ∃ report, e.Reports report ∧ report.status = .rejected) ∧
      (outcome = .advance ↔ ∃ report, e.Reports report ∧ report.status = .completed) ∧
      ((∃ reason, outcome = .retry reason) ↔
        ¬e.Rejects ∧ ∀ report, e.Reports report → report.status = .pending) ∧
      (∀ report, e.Reports report → devices = report.devices) ∧
      ((∀ report, ¬e.Reports report) → devices = []) := by
  refine ⟨fun late => ⟨_, execute_of_late late⟩, fun e seen => ?_⟩
  by_cases reports : ∃ report, e.Reports report
  · obtain ⟨report, h⟩ := reports
    refine ⟨_, _, execute_of_reports seen h, ?_, ?_, ?_, fun _ h' => h.unique h' ▸ rfl,
      fun silent => absurd h (silent report)⟩
    · rw [h.exists_iff, ActionReport.outcome_fatal_iff, or_iff_right h.not_rejects]
    · rw [h.exists_iff, ActionReport.outcome_advance_iff]
    · rw [h.forall_iff, ActionReport.outcome_retry_iff, and_iff_right h.not_rejects]
  · have silent : ∀ report, ¬e.Reports report := fun report h => reports ⟨report, h⟩
    by_cases rejects : e.Rejects
    · obtain ⟨reason, result⟩ := execute_of_rejects seen rejects
      refine ⟨_, _, result, ?_, ?_, ?_, fun report h => absurd h (silent report), fun _ => rfl⟩
      · exact iff_of_true ⟨reason, rfl⟩ (.inl rejects)
      · exact iff_of_false (by simp) fun ⟨report, h, _⟩ => silent report h
      · exact iff_of_false (by simp) fun ⟨accepted, _⟩ => accepted rejects
    · obtain ⟨reason, result⟩ := execute_of_neither seen silent rejects
      refine ⟨_, _, result, ?_, ?_, ?_, fun report h => absurd h (silent report), fun _ => rfl⟩
      · refine iff_of_false (by simp) ?_
        rintro (h | ⟨report, h, -⟩)
        · exact rejects h
        · exact silent report h
      · exact iff_of_false (by simp) fun ⟨report, h, _⟩ => silent report h
      · exact iff_of_true ⟨reason, rfl⟩ ⟨rejects, fun report h => absurd h (silent report)⟩

/-- A reply that is cut off rejects the step all the same, by its status. -/
example (r : StepRequest) :
    execute .zero (fun _ => some (.reply "422 Unprocessable Entity" [] false)) r =
      ⟨.fatal "rejected with 422 Unprocessable Entity", []⟩ := by
  rfl

end Http

end FirmwareRollout
