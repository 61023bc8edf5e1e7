import FirmwareRollout.Proofs.Worker.Asking
import FirmwareRollout.Proofs.Worker.Crew

/-!
The mail of the parties that are at work on one store while nothing fails: all workers have the same
retry policy, rollouts are created new, every call is carried out and heard, and no cycle is dropped
(`Turn.Smooth`). The mail is written down beside the crew (`Crew.mailed`).

`Party.KeepsOrder` is the invariant of a party with its mail, and `Party.Stride` says what its turn
can be: it asks for a rollout that it holds and has not asked for, it publishes what it has asked
for, or it is quiet.

Main statements: `Party.KeepsOrder.stride`, `Crew.KeepsOrder.step`.
-/

namespace FirmwareRollout

/-! ### The mail of a party -/

namespace Mail

/-- Nothing was asked for twice, what is not answered was sent, and nothing was asked for without a
time. -/
structure Proper (now? : Option Instant) (b : Mail) : Prop where
  once : b.asked.Nodup
  sent : b.unanswered.Sublist b.sent.reverse
  timed : now? = .none → b.asked = []

/-- The mail of a party after a turn of it. -/
def next (b : Mail) : Event → Task Unit → Mail
  | _, .step (.send q) _ => b.send q
  | .answer _, .step (.receive q) _ => b.answer q
  | _, _ => b

variable {now? : Option Instant} {b : Mail} {q : StepRequest}

theorem proper_none (now? : Option Instant) : none.Proper now? :=
  ⟨List.nodup_nil, List.Sublist.slnil, fun _ => rfl⟩

theorem Proper.send (h : b.Proper now?) (new : q.deployment ∉ b.asked) (timed : now?.isSome) :
    (b.send q).Proper now? where
  once := List.nodup_cons.2 ⟨new, h.once⟩
  sent := by
    show (b.unanswered ++ [q]).Sublist (q :: b.sent).reverse
    rw [List.reverse_cons]
    exact h.sent.append (List.Sublist.refl _)
  timed none := by
    rw [none] at timed
    cases timed

theorem Proper.answer (h : b.Proper now?) (q : StepRequest) : (b.answer q).Proper now? :=
  ⟨h.once, List.erase_sublist.trans h.sent, h.timed⟩

theorem Proper.nodup_unanswered (h : b.Proper now?) : (b.unanswered.map (·.deployment)).Nodup := by
  refine List.Nodup.sublist (h.sent.map _) ?_
  rw [List.map_reverse]
  exact (List.reverse_perm _).nodup_iff.2 h.once

theorem Proper.asked_of_unanswered (h : b.Proper now?) (hq : q ∈ b.unanswered) :
    q.deployment ∈ b.asked :=
  List.mem_map_of_mem (List.mem_reverse.1 (h.sent.subset hq))

end Mail

/-! ### Errands -/

/-- The time of an errand; a tracker has none. -/
def Errand.time? : Errand → Option Instant
  | cycle _ now => some now
  | record .. => none

/-- When an errand is done, its transaction is over, or it had nothing to ask. -/
def Errand.Over (_ : Unit) (b : Mail) (x : Option Transaction) (_ : Store) : Prop :=
  x = none ∨ b.asked = []

theorem Errand.orderly_task (errand : Errand) (s : Store) :
    Orderly errand.time? Errand.Over errand.task .none none s := by
  cases errand with
  | cycle w now =>
    refine Orderly.bind (Worker.achieves_cycle w now .none none s ⟨rfl, rfl⟩) fun _ _ _ _ h => ?_
    obtain ⟨_, -, ended⟩ := h
    exact .inl ended
  | record id eui outcome message =>
    exact Orderly.bind (Worker.orderly_recordOutcome id eui outcome message s) fun _ _ _ _ h => h

/-! ### The invariant of a party -/

/-- The request that a program is about to send. -/
def Task.sending? : Task Unit → Option StepRequest
  | .step (.send q) _ => some q
  | _ => none

theorem Task.sending?_eq_some_iff {task : Task Unit} {q : StepRequest} :
    sending? task = some q ↔ ∃ resume, task = .step (.send q) resume := by
  constructor
  · intro h
    cases task with
    | done a => cases h
    | step op resume =>
      cases op with
      | send q' => exact ⟨resume, Option.some.inj h ▸ rfl⟩
      | _ => cases h
  · rintro ⟨resume, rfl⟩
    rfl

theorem Task.proceed_carry_fst (x : Option Session) (s : Store) (clock : Instant)
    (lost : Option Error) (c : Call) (resume : c.Result → Task Unit) :
    (Task.proceed x s (.carry clock lost) (.step (.store c) resume)).1 =
      (Session.request x s clock c).1 := by
  rcases h : Session.request x s clock c with ⟨a, _ | r⟩ <;> simp only [proceed, h]

/-- A call is carried out and heard, or the bridge answers. -/
def Event.Smooth : Event → Prop
  | carry _ lost => lost = none
  | refuse _ => False
  | answer _ => True

/-- **The invariant of a party with its mail**, on a store: it deals with the bridge in order, and
what it has asked for it holds; when it has published, or has no transaction, it awaits no answer. -/
def Party.KeepsOrder (p : Party) (b : Mail) (s : Store) : Option Session → Prop
  | none => b.unanswered = [] ∧ Orderly p.errand.time? Errand.Over p.rest b none s
  | some (.working t) => (∀ id ∈ b.asked, t.held.contains id) ∧
    Orderly p.errand.time? Errand.Over p.rest b (some t) s
  | some (.leaving _) => b.unanswered = [] ∧ ∃ resume, p.rest = .step (.store .commit) resume ∧
    ∀ s', Orderly p.errand.time? Errand.Over (resume (.ok ())) b none s'

/-- **What the turn of a party can be**: its stroke, and its mail afterwards. -/
inductive Party.Stride (p : Party) (b : Mail) (s : Store) (x : Option Session) :
    Option Act → Mail → Prop where
  | asks {q : StepRequest} {t : Transaction} (sending : Task.sending? p.rest = some q)
    (working : x = some (.working t)) (apt : Apt p.errand.time? (some t) s q)
    (new : q.deployment ∉ b.asked) : Stride p b s x none (b.send q)
  | publishes {t : Transaction} (silent : Task.sending? p.rest = none)
    (working : x = some (.working t))
    (written : ∀ id, t.staging.deployments.contains id ↔ id ∈ b.asked) :
    Stride p b s x (some .publish) b
  | quiet {a : Option Act} {b' : Mail} (silent : Task.sending? p.rest = none)
    (keeps : a ≠ some .publish) (same : b'.asked = b.asked)
    (stays : b.asked ≠ [] →
      ((∃ t, (Session.stroke x s a).1 = some (.working t)) ↔ ∃ t, x = some (.working t))) :
    Stride p b s x a b'

namespace Party

variable {p : Party} {b : Mail} {x : Option Session} {s s' : Store} {t : Transaction}

theorem keepsOrder_start (errand : Errand) (s : Store) :
    Party.KeepsOrder ⟨errand, errand.task⟩ .none s none :=
  ⟨rfl, errand.orderly_task s⟩

/-- Others do not disturb a party. -/
theorem KeepsOrder.onward (h : p.KeepsOrder b s x) (onward : s.Onward (Session.Has x) s') :
    p.KeepsOrder b s' x := by
  have stable : ∀ (a : Unit) (b : Mail) (x : Option Transaction) (s s' : Store), Later x s s' →
      Errand.Over a b x s → Errand.Over a b x s' := fun _ _ _ _ _ _ h => h
  match x with
  | none => exact ⟨h.1, Orderly.later (fun a b => stable a b none) h.2 onward⟩
  | some (.working t) => exact ⟨h.1, Orderly.later (fun a b => stable a b (some t)) h.2 onward⟩
  | some (.leaving held) => exact h

/-- What is not answered was asked by a party that is at work. -/
theorem KeepsOrder.working_of_unanswered (h : p.KeepsOrder b s x) (hb : b.unanswered ≠ []) :
    ∃ t, x = some (.working t) := by
  match x with
  | none => exact (hb h.1).elim
  | some (.working t) => exact ⟨t, rfl⟩
  | some (.leaving held) => exact (hb h.1).elim

/-- A party that is about to ask is at work, and the request is as it should be. -/
theorem KeepsOrder.apt (h : p.KeepsOrder b s x) {q : StepRequest}
    (sending : Task.sending? p.rest = some q) :
    ∃ t, x = some (.working t) ∧ Apt p.errand.time? (some t) s q ∧ q.deployment ∉ b.asked := by
  obtain ⟨resume, hrest⟩ := Task.sending?_eq_some_iff.1 sending
  match x with
  | none =>
    rw [Party.KeepsOrder, hrest] at h
    obtain ⟨-, ⟨_, _, _, _, absent, -⟩, -⟩ := h
    cases absent
  | some (.working t) =>
    rw [Party.KeepsOrder, hrest] at h
    exact ⟨t, rfl, h.2.1, h.2.2.1⟩
  | some (.leaving held) =>
    obtain ⟨-, _, commit, -⟩ := h
    cases hrest.symm.trans commit

/-- A transaction that takes calls takes calls after one that does not end it. -/
theorem working_call (t : Transaction) (s : Store) (clock : Instant) (c : Call) :
    ∃ t', (Session.act (some (.working t)) s (.call clock c)).1 = some (.working t') := by
  simp only [Session.act]
  split
  · exact ⟨_, rfl⟩
  · exact ⟨t, rfl⟩

theorem KeepsOrder.stride (h : p.KeepsOrder b s x) (e : Event) :
    p.Stride b s x (Task.proceed x s e p.rest).1 (b.next e p.rest) := by
  obtain ⟨errand, rest⟩ := p
  cases rest with
  | done a => cases e <;> exact .quiet rfl nofun rfl fun _ => .rfl
  | step op resume =>
    cases op with
    | send q =>
      obtain ⟨t, working, apt, new⟩ := h.apt rfl
      cases e <;> exact .asks rfl working apt new
    | receive q => cases e <;> exact .quiet rfl nofun rfl fun _ => .rfl
    | store c =>
      cases e with
      | answer result => exact .quiet rfl nofun rfl fun _ => .rfl
      | refuse e =>
        match x with
        | none => exact .quiet rfl nofun rfl fun _ => .rfl
        | some (.working t) => exact .quiet rfl nofun rfl fun _ => .rfl
        | some (.leaving held) => exact .quiet rfl nofun rfl fun _ => .rfl
      | carry clock lost =>
        show Party.Stride _ b s x
          (Task.proceed x s (.carry clock lost) (.step (.store c) resume)).1 b
        rw [Task.proceed_carry_fst x s clock lost c resume]
        match x with
        | none =>
          -- no call is in time but the one that opens a transaction
          have timely := (h.2 s (Later.refl none s)).1
          cases c with
          | begin => exact .quiet rfl nofun rfl fun asked => (asked timely).elim
          | commit => obtain ⟨_, absent, -⟩ := timely; cases absent
          | _ => cases timely
        | some (.leaving held) =>
          obtain ⟨-, _, commit, -⟩ := h
          cases commit
          exact .quiet rfl nofun rfl fun _ => ⟨nofun, nofun⟩
        | some (.working t) =>
          have timely := (h.2 s (Later.refl (some t) s)).1
          cases c with
          | begin => exact .quiet rfl nofun rfl fun _ => .rfl
          | commit =>
            obtain ⟨_, working, -, written⟩ := timely
            cases working
            exact .publishes rfl rfl written
          | rollback => exact timely.elim
          | _ => exact .quiet rfl nofun rfl fun _ =>
              ⟨fun _ => ⟨t, rfl⟩, fun _ => working_call t s clock _⟩

/-- A call in the midst of a transaction, which is carried out at one stroke or has to wait. -/
theorem keepsOrder_call {errand : Errand} {c : Call} {resume : c.Result → Task Unit}
    (h : Party.KeepsOrder ⟨errand, .step (.store c) resume⟩ b s (some (.working t))) (hs : s.Keyed)
    (ht : t.Confined) (clock : Instant) (stays : c ≠ .commit ∧ c ≠ .rollback)
    (call : Session.request (some (.working t)) s clock c =
      (some (.call clock c), Session.answer (some (.working t)) s clock c)) :
    let (a, rest) := Task.proceed (some (.working t)) s (.carry clock none)
      (.step (.store c) resume)
    Party.KeepsOrder ⟨errand, rest⟩ b (Session.stroke (some (.working t)) s a).2
      (Session.stroke (some (.working t)) s a).1 := by
  obtain ⟨held, orderly⟩ := h
  have resumes := (orderly s (Later.refl (some t) s)).2
  simp only [Task.proceed, call, Session.answer]
  cases hperform : t.perform s clock c with
  | none =>
    simp only [Option.map_none, Session.stroke, Session.act, hperform]
    exact ⟨held, orderly⟩
  | some result =>
    obtain ⟨r, s', left⟩ := result
    cases left with
    | none => exact ((t.ends_of_perform hperform).elim stays.1 stays.2).elim
    | some t' =>
      have effect := Transaction.perform_effect hs ht hperform
      simp only [Option.map_some, Session.stroke, Session.act, hperform]
      exact ⟨fun id hid => effect.held_mono (held id hid),
        resumes _ _ _ (.carried rfl hs ht hperform)⟩

theorem keepsOrder_carry {errand : Errand} {c : Call} {resume : c.Result → Task Unit}
    (h : Party.KeepsOrder ⟨errand, .step (.store c) resume⟩ b s x) (hs : s.Keyed)
    (hx : Session.Confined x) (clock : Instant) :
    let (a, rest) := Task.proceed x s (.carry clock none) (.step (.store c) resume)
    Party.KeepsOrder ⟨errand, rest⟩ b (Session.stroke x s a).2 (Session.stroke x s a).1 := by
  match x with
  | none =>
    obtain ⟨timely, resumes⟩ := h.2 s (Later.refl none s)
    cases c with
    | begin =>
      have nothing : b.asked = [] := timely
      exact ⟨by simp [nothing], resumes _ _ _ (.opened rfl)⟩
    | commit => obtain ⟨_, absent, -⟩ := timely; cases absent
    | rollback => exact timely.elim
    | _ => cases timely
  | some (.leaving held) =>
    obtain ⟨answered, _, commit, orderly⟩ := h
    cases commit
    exact ⟨answered, orderly _⟩
  | some (.working t) =>
    obtain ⟨timely, resumes⟩ := h.2 s (Later.refl (some t) s)
    cases c with
    | begin => exact h
    | commit =>
      obtain ⟨_, -, answered, -⟩ := timely
      exact ⟨answered, resume, rfl, fun s' => resumes _ _ _ (.ended s')⟩
    | rollback => exact timely.elim
    | _ => exact keepsOrder_call h hs (hx t rfl) clock (by simp) rfl

theorem KeepsOrder.proceed (h : p.KeepsOrder b s x) (hs : s.Keyed) (hx : Session.Confined x)
    {e : Event} (smooth : e.Smooth) :
    let (a, rest) := Task.proceed x s e p.rest
    Party.KeepsOrder { p with rest } (b.next e p.rest) (Session.stroke x s a).2
      (Session.stroke x s a).1 := by
  obtain ⟨errand, rest⟩ := p
  cases rest with
  | done a => cases e <;> exact h
  | step op resume =>
    cases op with
    | send q =>
      obtain ⟨t, rfl, ⟨_, d, _, _, same, -, held, -, -, rfl⟩, -⟩ := h.apt rfl
      cases same
      have holds : ∀ id ∈ d.id :: b.asked, t.held.contains id :=
        List.forall_mem_cons.2 ⟨held, h.1⟩
      cases e <;> exact ⟨holds, h.2.2.2⟩
    | receive q =>
      cases e with
      | answer result =>
        match x with
        | none =>
          refine ⟨?_, h.2 result⟩
          show b.unanswered.erase q = []
          rw [h.1]
          rfl
        | some (.working t) => exact ⟨h.1, h.2 result⟩
        | some (.leaving held) => obtain ⟨-, _, commit, -⟩ := h; cases commit
      | _ => exact h
    | store c =>
      cases e with
      | answer result => exact h
      | refuse e => exact smooth.elim
      | carry clock lost =>
        obtain rfl : lost = none := smooth
        exact keepsOrder_carry h hs hx clock

theorem KeepsOrder.proper (h : p.KeepsOrder b s x) (proper : b.Proper p.errand.time?) (e : Event) :
    (b.next e p.rest).Proper p.errand.time? := by
  obtain ⟨errand, rest⟩ := p
  cases rest with
  | done a => cases e <;> exact proper
  | step op resume =>
    cases op with
    | send q =>
      obtain ⟨t, -, ⟨_, _, now, _, -, time, -⟩, new⟩ := h.apt rfl
      have sent := proper.send new (Option.isSome_iff_exists.2 ⟨now, time⟩)
      cases e <;> exact sent
    | receive q =>
      cases e with
      | answer result => exact proper.answer q
      | _ => exact proper
    | store c => cases e <;> exact proper

end Party

/-! ### The invariant of a crew -/

/-- The turn is one of a crew in which nothing fails: rollouts are created new, all workers have the
same retry policy, every call is carried out and heard, and no cycle is dropped before it is
done. -/
def Turn.Smooth (policy : RetryPolicy) (c : Crew) : Turn → Prop
  | create d _ => ∃ plan random clock, d = .start plan random clock
  | start _ errand => ∀ w now, errand = .cycle w now → w.machine.retry = policy
  | go _ e => e.Smooth
  | drop tx => ∀ w now rest, c.parties.find? tx = some ⟨.cycle w now, rest⟩ → rest = .done ()

namespace Crew

/-- The mail of all parties after a turn. -/
def mailed (c : Crew) (b : TxId → Mail) (m : Turn) (tx : TxId) : Mail :=
  match m with
  | .go tx' e =>
    if tx' = tx then
      match c.parties.find? tx with
      | some p => (b tx).next e p.rest
      | none => b tx
    else b tx
  | .drop tx' => if tx' = tx then .none else b tx
  | _ => b tx

/-- **The invariant of a crew with its mail**: that of every party, all of whose workers have one
retry policy; nobody else has any mail. -/
structure KeepsOrder (policy : RetryPolicy) (c : Crew) (b : TxId → Mail) : Prop where
  party : ∀ {tx p}, c.parties.find? tx = some p →
    p.KeepsOrder (b tx) c.shared.store (c.shared.sessions.find? tx)
  proper : ∀ {tx p}, c.parties.find? tx = some p → (b tx).Proper p.errand.time?
  absent : ∀ {tx}, c.parties.find? tx = none → b tx = .none
  policy : ∀ {tx w now rest}, c.parties.find? tx = some ⟨.cycle w now, rest⟩ →
    w.machine.retry = policy

variable {policy : RetryPolicy} {c : Crew} {b : TxId → Mail} {tx tx' : TxId} {p : Party} {e : Event}

theorem mailed_go_self (hp : c.parties.find? tx = some p) :
    c.mailed b (.go tx e) tx = (b tx).next e p.rest := by
  simp [mailed, hp]

theorem mailed_go_of_ne (hne : tx ≠ tx') : c.mailed b (.go tx e) tx' = b tx' := if_neg hne

theorem mailed_go_of_absent (hp : c.parties.find? tx = none) : c.mailed b (.go tx e) = b := by
  funext tx'
  by_cases h : tx = tx'
  · subst h
    simp [mailed, hp]
  · exact mailed_go_of_ne h

/-- A stroke that is not a party's own does not disturb it. -/
theorem KeepsOrder.other (hc : c.Sound) (h : c.KeepsOrder policy b)
    (hp : c.parties.find? tx = some p) {k : Stroke} (other : ∀ a, k ≠ .act tx a) :
    p.KeepsOrder (b tx) (c.shared.step k).store ((c.shared.step k).sessions.find? tx) := by
  rw [find?_step_of_other c.shared other]
  exact (h.party hp).onward (hc.shared.onward_step other)

theorem KeepsOrder.go (hc : c.Sound) (h : c.KeepsOrder policy b) (tx : TxId) (smooth : e.Smooth) :
    (c.step (.go tx e)).KeepsOrder policy (c.mailed b (.go tx e)) := by
  cases hp : c.parties.find? tx with
  | none => rwa [step_go_of_absent hp, mailed_go_of_absent hp]
  | some p =>
    have own := (h.party hp).proceed hc.shared.keyed hc.shared.confined smooth
    have proper := (h.party hp).proper (h.proper hp) e
    generalize hgo : Task.proceed (c.shared.sessions.find? tx) c.shared.store e p.rest = go at own
    obtain ⟨a, rest⟩ := go
    rw [step_go hp hgo]
    refine ⟨fun {tx' p'} hp' => ?_, fun {tx' p'} hp' => ?_, fun {tx'} hp' => ?_,
      fun {tx' w now rest'} hp' => ?_⟩
    · rcases Table.find?_insert_eq_some_iff.1 hp' with ⟨rfl, rfl⟩ | ⟨hne, old⟩
      · rw [run_stroke, Shared.store_put, Shared.find?_put_self, mailed_go_self hp]
        exact own
      · rw [mailed_go_of_ne hne]
        cases a with
        | none => exact h.party old
        | some a => exact h.other hc old fun a' heq => hne (Stroke.act.inj heq).1
    · rcases Table.find?_insert_eq_some_iff.1 hp' with ⟨rfl, rfl⟩ | ⟨hne, old⟩
      · rw [mailed_go_self hp]
        exact proper
      · rw [mailed_go_of_ne hne]
        exact h.proper old
    · obtain ⟨hne, old⟩ := Table.find?_insert_eq_none_iff.1 hp'
      rw [mailed_go_of_ne hne]
      exact h.absent old
    · rcases Table.find?_insert_eq_some_iff.1 hp' with ⟨rfl, same⟩ | ⟨-, old⟩
      · obtain ⟨errand, rest₀⟩ := p
        cases same
        exact h.policy hp
      · exact h.policy old

theorem KeepsOrder.step (hc : c.Sound) (h : c.KeepsOrder policy b) {m : Turn}
    (smooth : m.Smooth policy c) : (c.step m).KeepsOrder policy (c.mailed b m) := by
  cases m with
  | go tx e => exact h.go hc tx smooth
  | create d devices =>
    show KeepsOrder policy ⟨c.shared.step (.create d devices), c.parties⟩ b
    exact ⟨fun hp => h.other hc hp (by simp), h.proper, h.absent, h.policy⟩
  | start tx errand =>
    show KeepsOrder policy ⟨c.shared, if _ then _ else _⟩ b
    split
    · exact h
    · next absent =>
      have fresh : b tx = .none := h.absent (Table.contains_eq_false_iff.1 (by simpa using absent))
      refine ⟨fun {tx' p'} hp' => ?_, fun {tx' p'} hp' => ?_, fun {tx'} hp' => ?_,
        fun {tx' w now rest'} hp' => ?_⟩
      · rcases Table.find?_insert_eq_some_iff.1 hp' with ⟨rfl, rfl⟩ | ⟨-, old⟩
        · cases hx : c.shared.sessions.find? tx with
          | none => exact fresh ▸ Party.keepsOrder_start errand _
          | some x => exact absurd (hc.led hx) absent
        · exact h.party old
      · rcases Table.find?_insert_eq_some_iff.1 hp' with ⟨rfl, rfl⟩ | ⟨-, old⟩
        · exact fresh ▸ Mail.proper_none _
        · exact h.proper old
      · exact h.absent (Table.find?_insert_eq_none_iff.1 hp').2
      · rcases Table.find?_insert_eq_some_iff.1 hp' with ⟨rfl, same⟩ | ⟨-, old⟩
        · cases same
          exact smooth w now rfl
        · exact h.policy old
  | drop tx =>
    show KeepsOrder policy ⟨c.shared.step (.act tx .leave), c.parties.erase tx⟩ _
    have others : ∀ {tx'}, tx ≠ tx' → c.mailed b (.drop tx) tx' = b tx' := fun hne => if_neg hne
    refine ⟨fun {tx' p'} hp' => ?_, fun {tx' p'} hp' => ?_, fun {tx'} hp' => ?_,
      fun {tx' w now rest'} hp' => ?_⟩
    · obtain ⟨hne, old⟩ := Table.find?_erase_eq_some_iff.1 hp'
      rw [others hne]
      exact h.other hc old fun a heq => hne (Stroke.act.inj heq).1
    · obtain ⟨hne, old⟩ := Table.find?_erase_eq_some_iff.1 hp'
      rw [others hne]
      exact h.proper old
    · by_cases hne : tx = tx'
      · exact if_pos hne
      · rw [others hne]
        exact h.absent ((Table.find?_erase_of_ne _ hne).symm.trans hp')
    · exact h.policy (Table.find?_erase_eq_some_iff.1 hp').2

end Crew

end FirmwareRollout
