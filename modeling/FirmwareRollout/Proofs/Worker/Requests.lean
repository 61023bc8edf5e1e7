import FirmwareRollout.Proofs.Rollout.Course
import FirmwareRollout.Proofs.Worker.Mail
import FirmwareRollout.Proofs.Worker.Rollouts

/-!
What the bridge is asked while any number of workers and trackers are at work on one store and
nothing fails. What is dealt for each rollout is written down beside the crew (`Crew.dealings`): a
request for it, or a transaction that publishes its record.

Between a request for a rollout and its transition the party that has asked holds the rollout, so
that nobody else can ask for it (`KeepsOrder.asked`), and it publishes all that it has asked for
(`KeepsOrder.published`). So every rollout is on its course.

Main statement: `requests_in_order`.
-/

namespace FirmwareRollout

namespace Crew

variable {policy : RetryPolicy} {c : Crew} {b : TxId → Mail} {tx tx' : TxId} {p : Party} {e : Event}

/-! ### What is dealt for a rollout -/

/-- The request that a turn sends to the bridge. -/
def sent? (c : Crew) : Turn → Option StepRequest
  | .go tx _ => (c.parties.find? tx).bind fun p => Task.sending? p.rest
  | _ => none

/-- The record that a turn publishes of a rollout. -/
def published? (c : Crew) (id : DeploymentId) (m : Turn) : Option Deployment :=
  match c.stroke? m with
  | some (.act tx .publish) => c.shared.writes tx id
  | _ => none

/-- What a turn is for a rollout. -/
def dealing? (c : Crew) (id : DeploymentId) (m : Turn) : Option Dealing :=
  match c.sent? m with
  | some q => if q.deployment = id then some (.asked q.stage) else none
  | none => (c.published? id m).map fun _ => .moved

/-- The party `tx` has asked for the rollout, and is still at work. -/
def Owes (c : Crew) (b : TxId → Mail) (id : DeploymentId) (tx : TxId) : Prop :=
  (∃ t, c.shared.sessions.find? tx = some (.working t)) ∧ id ∈ (b tx).asked

variable {id : DeploymentId} {d d' : Deployment} {t : Transaction} {a : Option Act}
  {rest : Task Unit}

theorem sent?_go (hp : c.parties.find? tx = some p) :
    c.sent? (.go tx e) = Task.sending? p.rest := by
  simp [sent?, hp]

theorem stroke?_go (hp : c.parties.find? tx = some p)
    (hgo : Task.proceed (c.shared.sessions.find? tx) c.shared.store e p.rest = (a, rest)) :
    c.stroke? (.go tx e) = a.map (.act tx) := by
  simp [stroke?, proceed, hp, hgo]

/-- Who has asked for a rollout holds it. -/
theorem KeepsOrder.holds (hc : c.Sound) (h : c.KeepsOrder policy b) (owes : c.Owes b id tx) :
    c.shared.Holds tx id := by
  obtain ⟨⟨t, ht⟩, hid⟩ := owes
  obtain ⟨p, hp⟩ := Table.contains_iff.1 (hc.led ht)
  have own := h.party hp
  rw [ht] at own
  exact ⟨_, ht, own.1 id hid⟩

/-- **What a party publishes is a transition**, and one below the ceiling on attempts. -/
theorem KeepsOrder.moved (hc : c.Sound) (h : c.KeepsOrder policy b)
    (written : c.shared.writes tx id = some d') (hd : c.shared.store.get id = some d) :
    d.progress.Moves d'.progress ∧ (d'.progress.stage = d.progress.stage →
      d'.progress.retryCount.toNat < policy.maxAttempts.toNat) := by
  obtain ⟨d₀, w, now, rest, stored, hp, moves⟩ := hc.moves_of_writes written
  obtain rfl := Option.some.inj (hd.symm.trans stored)
  refine ⟨moves.progress, fun stays => ?_⟩
  have below := moves.retryCount_lt stays
  rwa [h.policy hp] at below

/-- What one turn of the party `tx` makes of a crew and its mail. -/
structure Turned (c : Crew) (b : TxId → Mail) (tx : TxId) (a : Option Act) (next : Mail) (c' : Crew)
    (b' : TxId → Mail) : Prop where
  store : c'.shared.store = (Session.stroke (c.shared.sessions.find? tx) c.shared.store a).2
  session : c'.shared.sessions.find? tx =
    (Session.stroke (c.shared.sessions.find? tx) c.shared.store a).1
  mail : b' tx = next
  others : ∀ tx', tx ≠ tx' →
    c'.shared.sessions.find? tx' = c.shared.sessions.find? tx' ∧ b' tx' = b tx'

theorem turned_go (hp : c.parties.find? tx = some p) (b : TxId → Mail)
    (hgo : Task.proceed (c.shared.sessions.find? tx) c.shared.store e p.rest = (a, rest)) :
    c.Turned b tx a ((b tx).next e p.rest) (c.step (.go tx e)) (c.mailed b (.go tx e)) := by
  rw [step_go hp hgo, run_stroke]
  exact ⟨Shared.store_put _ _ _ _, Shared.find?_put_self _ _ _ _, mailed_go_self hp,
    fun tx' hne => ⟨Shared.find?_put_of_ne _ hne _ _, mailed_go_of_ne hne⟩⟩

section Turned

variable {c' : Crew} {b' : TxId → Mail} {next : Mail}

theorem Turned.owes_of_ne (turned : c.Turned b tx a next c' b') {tx' : TxId} (hne : tx ≠ tx') :
    c'.Owes b' id tx' ↔ c.Owes b id tx' := by
  obtain ⟨session, mail⟩ := turned.others tx' hne
  rw [Owes, Owes, session, mail]

/-- If the party owes what it has owed, so do all. -/
theorem Turned.owes (turned : c.Turned b tx a next c' b')
    (own : c'.Owes b' id tx ↔ c.Owes b id tx) :
    (∃ tx, c'.Owes b' id tx) ↔ ∃ tx, c.Owes b id tx := by
  refine exists_congr fun tx' => ?_
  by_cases hne : tx = tx'
  · exact hne ▸ own
  · exact turned.owes_of_ne hne

/-- **A request** is for a rollout that nobody has asked for since its last transition. -/
theorem KeepsOrder.asked (hc : c.Sound) (h : c.KeepsOrder policy b) {q : StepRequest}
    {now? : Option Instant} (turned : c.Turned b tx none ((b tx).send q) c' b')
    (working : c.shared.sessions.find? tx = some (.working t))
    (apt : Apt now? (some t) c.shared.store q) (new : q.deployment ∉ (b tx).asked)
    (hd : c.shared.store.get id = some d) (M : Nat) :
    Dealt M (∃ tx, c.Owes b id tx) (∃ tx, c'.Owes b' id tx) d.progress d.progress
      (if q.deployment = id then some (.asked q.stage) else none) := by
  obtain ⟨_, d₀, now, pending, same, -, held, stored, due, rfl⟩ := apt
  cases same
  have session : c'.shared.sessions.find? tx = some (.working t) := turned.session.trans working
  split
  · next hid =>
    obtain rfl : d₀.id = id := hid
    obtain rfl := Option.some.inj (hd.symm.trans stored)
    refine .asked ?_ ⟨tx, ⟨t, session⟩, ?_⟩ fun done => ?_
    · -- whoever has asked for it holds it, and that is this party
      rintro ⟨tx', owes⟩
      obtain rfl := hc.shared.exclusive (h.holds hc owes) ⟨_, working, held⟩
      exact new owes.2
    · rw [turned.mail]
      exact List.mem_cons_self
    · have unfinished := Deployment.unfinished_of_isDue due
      rw [done] at unfinished
      cases unfinished
  · next hid =>
    refine .still (turned.owes ?_)
    rw [Owes, Owes, session, working, turned.mail, Mail.asked_send, List.mem_cons,
      or_iff_right (Ne.symm hid)]

/-- **A publication** is the transition of what was asked for. -/
theorem KeepsOrder.published (hc : c.Sound) (h : c.KeepsOrder policy b)
    (turned : c.Turned b tx (some .publish) (b tx) c' b')
    (working : c.shared.sessions.find? tx = some (.working t))
    (written : ∀ id, t.staging.deployments.contains id ↔ id ∈ (b tx).asked)
    (hd : c.shared.store.get id = some d) : ∃ d', c'.shared.store.get id = some d' ∧
      Dealt policy.maxAttempts.toNat (∃ tx, c.Owes b id tx) (∃ tx, c'.Owes b' id tx) d.progress
        d'.progress ((c.shared.writes tx id).map fun _ => .moved) := by
  have wrote : c.shared.writes tx id = t.staging.deployments.find? id := by
    rw [Shared.writes, Shared.working?_eq_some_iff.2 working]
    rfl
  have store : c'.shared.store.get id = (c.shared.writes tx id).or (c.shared.store.get id) := by
    rw [← hc.shared.get_publish, Shared.step, Shared.store_put, turned.store]
    rfl
  have left : ¬ c'.Owes b' id tx := by
    rintro ⟨⟨_, session⟩, -⟩
    rw [turned.session, working] at session
    cases session
  rw [store, wrote]
  cases hfind : t.staging.deployments.find? id with
  | none =>
    have unasked : ¬ c.Owes b id tx := by
      rintro ⟨-, asked⟩
      rw [← written, Table.contains, hfind] at asked
      cases asked
    exact ⟨d, hd, .still (turned.owes (iff_of_false left unasked))⟩
  | some d' =>
    obtain ⟨moves, below⟩ := h.moved hc (wrote.trans hfind) hd
    have owed : c.Owes b id tx :=
      ⟨⟨t, working⟩, (written id).1 (Table.contains_of_find? hfind)⟩
    refine ⟨d', rfl, .moved ⟨tx, owed⟩ ?_ moves below⟩
    rintro ⟨tx', owes⟩
    by_cases hne : tx = tx'
    · exact left (hne ▸ owes)
    · have before := (turned.owes_of_ne hne).1 owes
      exact hne (hc.shared.exclusive (h.holds hc owed) (h.holds hc before))

/-- Any other turn of a party leaves the records as they are, and what is owed. -/
theorem Turned.quiet (hc : c.Sound) (turned : c.Turned b tx a next c' b')
    (keeps : a ≠ some .publish) (same : next.asked = (b tx).asked) (stays : (b tx).asked ≠ [] →
      ((∃ t, (Session.stroke (c.shared.sessions.find? tx) c.shared.store a).1 = some (.working t)) ↔
        ∃ t, c.shared.sessions.find? tx = some (.working t))) :
    c'.shared.store.get id = c.shared.store.get id ∧
      ((∃ tx, c'.Owes b' id tx) ↔ ∃ tx, c.Owes b id tx) := by
  constructor
  · cases a with
    | none => exact congrArg (·.get id) turned.store
    | some a =>
      have kept : (c.shared.step (.act tx a)).store.get id = c.shared.store.get id :=
        hc.shared.get_step_act a fun ha => keeps (ha ▸ rfl)
      rw [← kept, Shared.step, Shared.store_put, turned.store]
      rfl
  · refine turned.owes ?_
    rw [Owes, Owes, turned.session, turned.mail, same]
    exact and_congr_left fun hid => stays (List.ne_nil_of_mem hid)

end Turned

/-- What the turn of a party is for a rollout that is stored. -/
theorem KeepsOrder.dealt_go (hc : c.Sound) (h : c.KeepsOrder policy b)
    (hp : c.parties.find? tx = some p) (e : Event) (hd : c.shared.store.get id = some d) :
    ∃ d', (c.step (.go tx e)).shared.store.get id = some d' ∧
      Dealt policy.maxAttempts.toNat (∃ tx, c.Owes b id tx)
        (∃ tx', (c.step (.go tx e)).Owes (c.mailed b (.go tx e)) id tx')
        d.progress d'.progress (c.dealing? id (.go tx e)) := by
  have stride := (h.party hp).stride e
  generalize hgo : Task.proceed (c.shared.sessions.find? tx) c.shared.store e p.rest = go at stride
  obtain ⟨a, rest⟩ := go
  have turned := turned_go hp b hgo
  rw [dealing?, sent?_go hp, Crew.published?, stroke?_go hp hgo]
  generalize (b tx).next e p.rest = next at turned stride
  cases stride with
  | asks sending working apt new =>
    rw [sending]
    exact ⟨d, (congrArg (·.get id) turned.store).trans hd, h.asked hc turned working apt new hd _⟩
  | publishes silent working written =>
    rw [silent]
    exact h.published hc turned working written hd
  | quiet silent keeps same stays =>
    obtain ⟨kept, owes⟩ := turned.quiet hc keeps same stays
    rw [silent]
    refine ⟨d, kept.trans hd, ?_⟩
    cases a with
    | none => exact .still owes
    | some a =>
      cases a with
      | publish => exact (keeps rfl).elim
      | _ => exact .still owes

/-- Who is dropped owes nothing. -/
theorem KeepsOrder.not_owes_of_drop (hc : c.Sound) (h : c.KeepsOrder policy b)
    (smooth : Turn.Smooth policy c (.drop tx)) : ¬ c.Owes b id tx := by
  rintro ⟨⟨t, ht⟩, hid⟩
  obtain ⟨⟨errand, rest⟩, hp⟩ := Table.contains_iff.1 (hc.led ht)
  have nothing : (b tx).asked = [] := by
    cases errand with
    | cycle w now =>
      -- the cycle is done, so its transaction would be over
      obtain rfl := smooth w now rest hp
      have own := h.party hp
      rw [ht] at own
      exact own.2.resolve_left (Option.some_ne_none t)
    | record => exact (h.proper hp).timed rfl
  rw [nothing] at hid
  cases hid

/-- **What a turn is for a rollout** that is stored. -/
theorem KeepsOrder.dealt (hc : c.Sound) (h : c.KeepsOrder policy b) {m : Turn}
    (smooth : m.Smooth policy c) (hd : c.shared.store.get id = some d) :
    ∃ d', (c.step m).shared.store.get id = some d' ∧
      Dealt policy.maxAttempts.toNat (∃ tx, c.Owes b id tx)
        (∃ tx, (c.step m).Owes (c.mailed b m) id tx) d.progress d'.progress (c.dealing? id m) := by
  cases m with
  | create d₀ devices =>
    have known := Store.contains_of_get hd
    exact ⟨d, (Store.get_create_of_contains known d₀ devices).trans hd, .still .rfl⟩
  | start tx errand => exact ⟨d, hd, .still .rfl⟩
  | go tx e =>
    cases hp : c.parties.find? tx with
    | some p => exact h.dealt_go hc hp e hd
    | none =>
      rw [step_go_of_absent hp, mailed_go_of_absent hp, dealing?, sent?, published?, stroke?,
        proceed, hp]
      exact ⟨d, hd, .still .rfl⟩
  | drop tx =>
    have turned : c.Turned b tx (some .leave) .none (c.step (.drop tx)) (c.mailed b (.drop tx)) :=
      ⟨Shared.store_put _ _ _ _, Shared.find?_put_self _ _ _ _, if_pos rfl,
        fun tx' hne => ⟨Shared.find?_put_of_ne _ hne _ _, if_neg hne⟩⟩
    refine ⟨d, (hc.shared.get_step_act .leave (by simp)).trans hd, .still (turned.owes ?_)⟩
    refine iff_of_false ?_ (h.not_owes_of_drop hc smooth)
    rintro ⟨⟨t, session⟩, -⟩
    rw [turned.session] at session
    cases hx : c.shared.sessions.find? tx <;> rw [hx] at session <;> cases session

/-- What is stored after a turn that does not create a rollout. -/
theorem Sound.get_step_eq (hc : c.Sound) {m : Turn} (old : ∀ d devices, m ≠ .create d devices) :
    (c.step m).shared.store.get id = (c.published? id m).or (c.shared.store.get id) := by
  show (c.shared.run (c.stroke? m).toList).store.get id = _
  unfold published?
  cases hk : c.stroke? m with
  | none => rfl
  | some k =>
    cases k with
    | create d devices => exact (old d devices (create_of_create hk)).elim
    | act tx a =>
      show (c.shared.step (.act tx a)).store.get id = _
      cases a with
      | publish => exact hc.shared.get_publish
      | _ => exact hc.shared.get_step_act _ nofun

/-- What is published of a rollout is stored then, and is a transition of what was stored. -/
theorem Sound.get_of_published (hc : c.Sound) {m : Turn} (published : c.published? id m = some d') :
    ∃ d, c.shared.store.get id = some d ∧ (c.step m).shared.store.get id = some d' ∧
      d.progress.Moves d'.progress := by
  have old : ∀ d devices, m ≠ .create d devices := by
    rintro d devices rfl
    cases published
  have written := published
  unfold published? at written
  split at written
  · obtain ⟨d, _, _, _, stored, -, moves⟩ := hc.moves_of_writes written
    refine ⟨d, stored, ?_, moves.progress⟩
    rw [hc.get_step_eq old, published]
    rfl
  · cases written

/-- What is not published stays as it is. -/
theorem Sound.get_of_not_published (hc : c.Sound) {m : Turn} (kept : c.published? id m = none)
    (hd : c.shared.store.get id = some d) : (c.step m).shared.store.get id = some d := by
  by_cases created : ∃ d devices, m = .create d devices
  · obtain ⟨d₀, devices, rfl⟩ := created
    exact (Store.get_create_of_contains (Store.contains_of_get hd) d₀ devices).trans hd
  · rw [hc.get_step_eq fun d devices hm => created ⟨d, devices, hm⟩, kept]
    exact hd

/-- Only a new rollout comes where there was none. -/
theorem Sound.create_of_get (hc : c.Sound) {m : Turn} (absent : c.shared.store.get id = none)
    (hd : (c.step m).shared.store.get id = some d) : ∃ devices, m = .create d devices := by
  by_cases created : ∃ d devices, m = .create d devices
  · obtain ⟨d₀, devices, rfl⟩ := created
    have stored : (c.shared.store.create d₀ devices).2.get id = some d := hd
    rcases c.shared.store.create_cases d₀ devices with ⟨_, same⟩ | ⟨-, table, -, same⟩
    · rw [same] at stored
      cases absent.symm.trans stored
    · rw [same] at stored
      obtain ⟨e, he, rfl⟩ := Store.get_eq_some_iff.1 stored
      rcases Table.find?_insert_eq_some_iff.1 he with ⟨-, rfl⟩ | ⟨-, old⟩
      · exact ⟨devices, rfl⟩
      · cases absent.symm.trans (Store.get_of_find? old)
  · rw [hc.get_step_eq fun d devices hm => created ⟨d, devices, hm⟩, absent, Option.or_none] at hd
    obtain ⟨_, stored, -⟩ := hc.get_of_published hd
    cases absent.symm.trans stored

/-- The turn of a party that sends a request publishes nothing. -/
theorem published?_of_sent {m : Turn} {q : StepRequest} (sent : c.sent? m = some q) :
    c.published? id m = none := by
  cases m with
  | go tx e =>
    obtain ⟨p, hp, sending⟩ := Option.bind_eq_some_iff.1 sent
    obtain ⟨resume, hrest⟩ := Task.sending?_eq_some_iff.1 sending
    have stroke : c.stroke? (.go tx e) = none := by
      cases e <;> simp [stroke?, proceed, hp, hrest, Task.proceed]
    rw [published?, stroke]
  | _ => cases sent

theorem dealing?_eq_moved_iff {m : Turn} :
    c.dealing? id m = some .moved ↔ (c.published? id m).isSome := by
  unfold dealing?
  cases sent : c.sent? m with
  | none => simp [Option.isSome_iff_exists]
  | some q =>
    rw [published?_of_sent sent]
    simp

/-- Who is about to ask is a cycle, and asks for a rollout as it is stored, which is due at its
time. -/
theorem KeepsOrder.apt (h : c.KeepsOrder policy b) {m : Turn} {q : StepRequest}
    (sent : c.sent? m = some q) : ∃ tx e w now rest d pending, m = .go tx e ∧
      c.parties.find? tx = some ⟨.cycle w now, rest⟩ ∧ c.shared.store.get d.id = some d ∧
      d.isDue now ∧ q = .ofDeployment d pending := by
  cases m with
  | go tx e =>
    obtain ⟨⟨errand, rest⟩, hp, sending⟩ := Option.bind_eq_some_iff.1 sent
    obtain ⟨_, -, ⟨_, d, now, pending, -, time, -, stored, due, hq⟩, -⟩ := (h.party hp).apt sending
    cases errand with
    | cycle w now' =>
      cases time
      exact ⟨tx, e, w, now, rest, d, pending, rfl, hp, stored, due, hq⟩
    | record => cases time
  | _ => cases sent

/-! ### The course of all rollouts -/

/-- **The invariant of all rollouts**: each one that is stored is on its course, and others were not
dealt with. -/
structure OnCourse (M : Nat) (c : Crew) (b : TxId → Mail) (ds : DeploymentId → List Dealing) :
    Prop where
  stored : ∀ {id d}, c.shared.store.get id = some d → ∃ asking : Bool,
    (asking = true ↔ ∃ tx, c.Owes b id tx) ∧ Course M asking d.progress (ds id)
  unknown : ∀ {id}, c.shared.store.get id = none → ds id = []

theorem OnCourse.step {ds : DeploymentId → List Dealing} (hc : c.Sound)
    (order : c.KeepsOrder policy b) (h : OnCourse policy.maxAttempts.toNat c b ds) {m : Turn}
    (smooth : m.Smooth policy c) : OnCourse policy.maxAttempts.toNat (c.step m) (c.mailed b m)
      fun id => (c.dealing? id m).toList ++ ds id := by
  -- a rollout that is not stored is neither asked for nor published
  have undealt : ∀ {id}, c.shared.store.get id = none → (c.dealing? id m).toList ++ ds id = [] := by
    intro id absent
    rw [h.unknown absent, List.append_nil, dealing?]
    cases sent : c.sent? m with
    | some q =>
      obtain ⟨_, _, _, _, _, d, pending, -, -, stored, -, rfl⟩ := order.apt sent
      have other : d.id ≠ id := fun hid => by cases (hid ▸ stored).symm.trans absent
      exact congrArg Option.toList (if_neg other)
    | none =>
      cases published : c.published? id m with
      | none => rfl
      | some d' =>
        obtain ⟨_, stored, -⟩ := hc.get_of_published published
        cases absent.symm.trans stored
  constructor
  · intro id d' hd'
    cases hd : c.shared.store.get id with
    | some d =>
      obtain ⟨asking, hasking, course⟩ := h.stored hd
      obtain ⟨d'', hd'', dealt⟩ := order.dealt hc smooth hd
      obtain rfl := Option.some.inj (hd'.symm.trans hd'')
      exact course.dealt hasking dealt
    | none =>
      obtain ⟨devices, rfl⟩ := hc.create_of_get hd hd'
      obtain ⟨plan, random, clock, rfl⟩ := smooth
      rw [undealt hd]
      refine ⟨false, ⟨fun asked => (Bool.false_ne_true asked).elim, ?_⟩, .new rfl rfl⟩
      rintro ⟨tx, owes⟩
      obtain ⟨_, he⟩ := Table.contains_iff.1 (hc.shared.known (order.holds hc owes))
      cases hd.symm.trans (Store.get_of_find? he)
  · intro id hd'
    cases hd : c.shared.store.get id with
    | none => exact undealt hd
    | some d =>
      obtain ⟨_, stored, -⟩ := order.dealt hc smooth hd
      cases hd'.symm.trans stored

/-! ### Histories -/

/-- Nothing fails in a history. -/
def Smooth (policy : RetryPolicy) : List Turn → Prop
  | [] => True
  | m :: h => m.Smooth policy (after h) ∧ Smooth policy h

/-- The mail of all parties after a history. -/
def mail : List Turn → TxId → Mail
  | [] => fun _ => .none
  | m :: h => (after h).mailed (mail h) m

/-- What was dealt for a rollout in a history, the latest first. -/
def dealings : List Turn → DeploymentId → List Dealing
  | [], _ => []
  | m :: h, id => ((after h).dealing? id m).toList ++ dealings h id

theorem keepsOrder_after {h : List Turn} (smooth : Smooth policy h) :
    (after h).KeepsOrder policy (mail h) := by
  induction h with
  | nil => exact ⟨nofun, nofun, fun _ => rfl, nofun⟩
  | cons m h ih => exact (ih smooth.2).step (sound_after h) smooth.1

theorem onCourse_after {h : List Turn} (smooth : Smooth policy h) :
    OnCourse policy.maxAttempts.toNat (after h) (mail h) (dealings h) := by
  induction h with
  | nil => exact ⟨nofun, fun _ => rfl⟩
  | cons m h ih => exact (ih smooth.2).step (sound_after h) (keepsOrder_after smooth.2) smooth.1

/-- What is not answered is asked for by a party that is still at work. -/
theorem KeepsOrder.owes_of_unanswered (h : c.KeepsOrder policy b) {q : StepRequest}
    (hq : q ∈ (b tx).unanswered) : c.Owes b q.deployment tx := by
  cases hp : c.parties.find? tx with
  | none =>
    rw [h.absent hp] at hq
    cases hq
  | some p =>
    exact ⟨(h.party hp).working_of_unanswered (List.ne_nil_of_mem hq),
      (h.proper hp).asked_of_unanswered hq⟩

theorem KeepsOrder.nodup_unanswered (h : c.KeepsOrder policy b) (tx : TxId) :
    ((b tx).unanswered.map (·.deployment)).Nodup := by
  cases hp : c.parties.find? tx with
  | none =>
    rw [h.absent hp]
    exact List.nodup_nil
  | some p => exact (h.proper hp).nodup_unanswered

/-- Who owes a transition is not done. -/
theorem KeepsOrder.unfinished_of_owes (hc : c.Sound) (h : c.KeepsOrder policy b)
    (owes : c.Owes b id tx) : ∃ p, c.parties.find? tx = some p ∧ p.rest ≠ .done () := by
  obtain ⟨⟨t, ht⟩, hid⟩ := owes
  obtain ⟨p, hp⟩ := Table.contains_iff.1 (hc.led ht)
  refine ⟨p, hp, fun done => ?_⟩
  have own := h.party hp
  rw [ht, Party.KeepsOrder, done] at own
  have nothing := own.2.resolve_left (Option.some_ne_none t)
  rw [nothing] at hid
  cases hid

/-- **The bridge is asked in order.** In every history in which nothing fails, and rollouts are
created new:
- no two requests for one rollout await their answers at once, be they of one party or of two;
- of each rollout, requests and transitions take turns, the stages of the requests follow one
  another from the first one on, the last one is not asked for, and none is asked for more often
  than the policy allows attempts, or once. Where a request is not followed by a transition yet, the
  party that has asked is still at it;
- at each turn a stored record stays as it is, or the turn counts as a transition and is one;
- who is about to ask is a worker, and asks for a rollout as it is stored, which has a group and
  whose next step is not after the time of the cycle. -/
theorem requests_in_order (policy : RetryPolicy) (h : List Turn) (smooth : Smooth policy h) :
    ((∀ tx, ((mail h tx).unanswered.map (·.deployment)).Nodup) ∧
      ∀ tx tx' q q', q ∈ (mail h tx).unanswered → q' ∈ (mail h tx').unanswered →
        q.deployment = q'.deployment → tx = tx') ∧
    (∀ id, ∃ asking, Dealing.InOrder policy.maxAttempts.toNat asking (dealings h id) ∧
      (asking = true → ∃ tx p, (after h).parties.find? tx = some p ∧ p.rest ≠ .done () ∧
        id ∈ (mail h tx).asked)) ∧
    (∀ m id d, (after h).shared.store.get id = some d →
      ∃ d', (after (m :: h)).shared.store.get id = some d' ∧
        if (after h).dealing? id m = some .moved then d.progress.Moves d'.progress else d' = d) ∧
    ∀ m q, (after h).sent? m = some q → ∃ tx e w now rest d, m = .go tx e ∧
      (after h).parties.find? tx = some ⟨.cycle w now, rest⟩ ∧
      (after h).shared.store.get q.deployment = some d ∧ q.stage = d.progress.stage ∧
      q.group = d.plan.group ∧ d.plan.group.isSome ∧ d.progress.nextStepAfter ≤ now := by
  have sound := sound_after h
  have order := keepsOrder_after smooth
  have courses := onCourse_after smooth
  refine ⟨⟨order.nodup_unanswered, fun tx tx' q q' hq hq' same => ?_⟩, fun id => ?_,
    fun m id d hd => ?_, fun m q sent => ?_⟩
  · have holds := order.holds sound (order.owes_of_unanswered hq)
    have holds' := order.holds sound (order.owes_of_unanswered hq')
    exact sound.shared.exclusive holds (same ▸ holds')
  · cases hd : (after h).shared.store.get id with
    | none =>
      rw [courses.unknown hd]
      exact ⟨false, ⟨trivial, trivial, List.not_mem_nil, fun _ => Nat.zero_le _⟩,
        fun asked => by cases asked⟩
    | some d =>
      obtain ⟨asking, hasking, course⟩ := courses.stored hd
      refine ⟨asking, course.inOrder, fun asked => ?_⟩
      obtain ⟨tx, owes⟩ := hasking.1 asked
      obtain ⟨p, hp, unfinished⟩ := order.unfinished_of_owes sound owes
      exact ⟨tx, p, hp, unfinished, owes.2⟩
  · cases published : (after h).published? id m with
    | none =>
      refine ⟨d, sound.get_of_not_published published hd, ?_⟩
      rw [if_neg (by simp [dealing?_eq_moved_iff, published])]
    | some d' =>
      obtain ⟨d₀, stored, written, moves⟩ := sound.get_of_published published
      obtain rfl := Option.some.inj (hd.symm.trans stored)
      refine ⟨d', written, ?_⟩
      rwa [if_pos (by simp [dealing?_eq_moved_iff, published])]
  · obtain ⟨tx, e, w, now, rest, d, pending, hm, hp, stored, due, rfl⟩ := order.apt sent
    simp only [Deployment.isDue, Bool.and_eq_true, decide_eq_true_eq] at due
    exact ⟨tx, e, w, now, rest, d, hm, hp, stored, rfl, rfl, due.1.2, due.2⟩

/-- A history in which a worker has done the first step of a rollout, and another one has asked for
the second. -/
def relay : List Turn :=
  List.replicate 4 (.go 2 (.carry .epoch none)) ++ .start 2 (.cycle .sample .epoch) ::
    List.replicate 6 (.go 1 (.carry .epoch none)) ++ .go 1 (.answer ⟨.advance, []⟩) ::
    List.replicate 4 (.go 1 (.carry .epoch none)) ++ [.start 1 (.cycle .sample .epoch),
      .create (.start Deployment.sample.plan (Vector.replicate 16 0) .epoch) []]

theorem smooth_relay : Smooth Worker.sample.machine.retry relay := by
  simp only [relay, Smooth, Turn.Smooth, Event.Smooth, List.replicate, List.cons_append,
    List.nil_append, true_and, and_true]
  exact ⟨fun _ _ h => by cases h; rfl, fun _ _ h => by cases h; rfl, _, _, _, rfl⟩

theorem relay_in_order : Smooth Worker.sample.machine.retry relay ∧
    (mail relay 2).unanswered.map (·.stage) = [.fragmentationSetup] ∧
    ((mail relay 2).unanswered.map (·.deployment)).Nodup ∧
    dealings relay (.ofRandom (Vector.replicate 16 0)) =
      [.asked .fragmentationSetup, .moved, .asked .multicastSetup] ∧
    ∃ asking, Dealing.InOrder 3 asking (dealings relay (.ofRandom (Vector.replicate 16 0))) := by
  obtain ⟨⟨distinct, -⟩, ordered, -⟩ := requests_in_order _ relay smooth_relay
  obtain ⟨asking, inOrder, -⟩ := ordered (.ofRandom (Vector.replicate 16 0))
  exact ⟨smooth_relay, by decide +kernel, distinct 2, by decide +kernel, asking, inOrder⟩

end Crew

end FirmwareRollout
