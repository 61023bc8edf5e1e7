import FirmwareRollout.Proofs.Store.Claiming
import FirmwareRollout.Proofs.Store.Creating
import FirmwareRollout.Proofs.Store.Staged
import FirmwareRollout.Proofs.Text.Utf8

/-!
Listings in pages. The devices of a rollout have one order, by the bytes of their names and then by
their EUIs, and unfinished rollouts have one, by time and identifier; both are strict, so that each
listing is one list, whatever order the store's maps are gone through in. Pages are slices of it,
and a client that asks for one page after the other gets it whole (`flatten_browse`).

Main statement: `pages_lose_nothing`.
-/

namespace FirmwareRollout

/-! ### The order of listings -/

namespace Participant

/-- `a` is listed before `b`: the bytes of its name come first, or the names are the same and its
EUI is smaller. -/
def Before (a b : Participant) : Prop :=
  Utf8.encode a.name.toList < Utf8.encode b.name.toList ∨ a.name = b.name ∧ rank a.eui < rank b.eui

variable {a b c : Participant}

theorem before_iff : Before a b ↔ a.name < b.name ∨ a.name = b.name ∧ rank a.eui < rank b.eui :=
  or_congr_left Utf8.encode_lt_iff

theorem listedBefore_iff : listedBefore a b ↔
    a.name < b.name ∨ a.name = b.name ∧ rank a.eui ≤ rank b.eui := by
  simp only [listedBefore, Bool.or_eq_true, Bool.and_eq_true, decide_eq_true_eq]

theorem listedBefore_total (a b : Participant) : listedBefore a b || listedBefore b a := by
  rw [Bool.or_eq_true, listedBefore_iff, listedBefore_iff]
  rcases Std.lt_trichotomy a.name b.name with less | same | greater
  · exact .inl (.inl less)
  · exact (Nat.le_total (rank a.eui) (rank b.eui)).imp (fun h => .inr ⟨same, h⟩)
      fun h => .inr ⟨same.symm, h⟩
  · exact .inr (.inl greater)

theorem listedBefore_trans (hab : listedBefore a b) (hbc : listedBefore b c) :
    listedBefore a c := by
  rw [listedBefore_iff] at *
  rcases hab with hab | ⟨hab, rab⟩ <;> rcases hbc with hbc | ⟨hbc, rbc⟩
  · exact .inl (String.lt_trans hab hbc)
  · exact .inl (hbc ▸ hab)
  · exact .inl (hab ▸ hbc)
  · exact .inr ⟨hab.trans hbc, Nat.le_trans rab rbc⟩

theorem before_of_listedBefore (h : listedBefore a b) (hne : a.eui ≠ b.eui) : Before a b := by
  rw [before_iff]
  rw [listedBefore_iff] at h
  exact h.imp_right fun ⟨same, le⟩ => ⟨same, Nat.lt_of_le_of_ne le fun heq => hne (rank_inj heq)⟩

theorem Before.asymm (hab : Before a b) : ¬ Before b a := by
  rw [before_iff] at *
  rintro (hba | ⟨same, hba⟩)
  · rcases hab with hab | ⟨same, -⟩
    · exact String.lt_asymm hab hba
    · exact String.lt_irrefl _ (same ▸ hba)
  · rcases hab with hab | ⟨-, hab⟩
    · exact String.lt_irrefl _ (same ▸ hab)
    · exact Nat.lt_asymm hab hba

end Participant

/-! ### Page after page -/

section Pages

variable {α : Type} {page : UInt32 → List α} {limit : UInt32} {l : List α}

/-- What a client gets that asks for pages of one size from an offset on, until one is empty or the
next offset does not fit 32 bits. -/
def browse (page : UInt32 → List α) (limit : UInt32) (positive : 0 < limit.toNat) (offset : Nat) :
    List (List α) :=
  if offset < 4294967296 then
    if page (.ofNat offset) = [] then []
    else page (.ofNat offset) :: browse page limit positive (offset + limit.toNat)
  else []
termination_by 4294967296 - offset

/-- The number of items on the pages whose offsets fit 32 bits, from an offset on. -/
def reach (limit : UInt32) (offset : Nat) : Nat :=
  (4294967296 - offset + limit.toNat - 1) / limit.toNat * limit.toNat

theorem reach_eq_zero (positive : 0 < limit.toNat) {offset : Nat} (h : 4294967296 ≤ offset) :
    reach limit offset = 0 := by
  unfold reach
  rw [Nat.div_eq_of_lt (by omega), Nat.zero_mul]

theorem reach_eq (positive : 0 < limit.toNat) {offset : Nat} (h : offset < 4294967296) :
    reach limit offset = limit.toNat + reach limit (offset + limit.toNat) := by
  by_cases more : offset + limit.toNat < 4294967296
  · have left : 4294967296 - offset + limit.toNat - 1 =
        4294967296 - (offset + limit.toNat) + limit.toNat - 1 + limit.toNat := by omega
    unfold reach
    rw [left, Nat.add_div_right _ positive, Nat.succ_mul, Nat.add_comm]
  · rw [reach_eq_zero positive (Nat.le_of_not_lt more), reach,
      show 4294967296 - offset + limit.toNat - 1 = 4294967296 - offset - 1 + limit.toNat by omega,
      Nat.add_div_right _ positive, Nat.div_eq_of_lt (by omega), Nat.succ_mul, Nat.zero_mul]
    omega

theorem le_reach (positive : 0 < limit.toNat) : 4294967296 ≤ reach limit 0 := by
  unfold reach
  have whole := Nat.div_add_mod (4294967296 - 0 + limit.toNat - 1) limit.toNat
  have part := Nat.mod_lt (4294967296 - 0 + limit.toNat - 1) positive
  rw [Nat.mul_comm] at whole
  omega

/-- **Pages in a row are the listing**, as far as offsets go. -/
theorem flatten_browse (slice : ∀ offset, page offset = (l.drop offset.toNat).take limit.toNat)
    (positive : 0 < limit.toNat) (offset : Nat) :
    (browse page limit positive offset).flatten = (l.drop offset).take (reach limit offset) := by
  have same {offset : Nat} (fits : offset < 4294967296) :
      page (.ofNat offset) = (l.drop offset).take limit.toNat := by
    rw [slice, UInt32.toNat_ofNat_of_lt' fits]
  fun_induction browse page limit positive offset with
  | case1 offset fits empty =>
    rw [same fits, List.take_eq_nil_iff] at empty
    rw [empty.resolve_left (Nat.ne_of_gt positive), List.take_nil]
    rfl
  | case2 offset fits items ih =>
    rw [List.flatten_cons, ih, same fits, reach_eq positive fits, List.take_add, List.drop_drop]
  | case3 offset ends =>
    rw [reach_eq_zero positive (Nat.le_of_not_lt ends), List.take_zero]
    rfl

end Pages

/-! ### Listings, however they are found -/

namespace Store

variable {s : Store} {id : DeploymentId} {clock : Instant} {devices devices' : List EnrolledDevice}
  {d : Deployment}

/-- Devices in the order of listings, found in any order. -/
def listed (ps : List Participant) : List Participant := ps.mergeSort Participant.listedBefore

/-- The rollouts that are not over in the order in which they are due, found in any order. -/
def unfinished (ds : List Deployment) : List Deployment :=
  (ds.filter fun d => !d.progress.stage.isTerminal).mergeSort Deployment.dueBefore

theorem pairwise_listed {ps : List Participant} (distinct : (ps.map (·.eui)).Nodup) :
    (listed ps).Pairwise Participant.Before := by
  have sorted : (listed ps).Pairwise fun a b => Participant.listedBefore a b :=
    @List.pairwise_mergeSort _ Participant.listedBefore
      (fun _ _ _ => Participant.listedBefore_trans) Participant.listedBefore_total _
  have apart : ((listed ps).map (·.eui)).Nodup :=
    ((List.mergeSort_perm _ _).map _).nodup_iff.2 distinct
  exact (sorted.and (List.pairwise_map.1 apart)).imp fun ⟨before, hne⟩ =>
    Participant.before_of_listedBefore before hne

theorem mem_unfinished_iff {ds : List Deployment} :
    d ∈ unfinished ds ↔ d ∈ ds ∧ d.progress.stage ≠ .done := by
  unfold unfinished
  rw [List.mem_mergeSort, List.mem_filter]
  cases d.progress.stage <;> simp [Stage.isTerminal]

theorem nodup_unfinished {ds : List Deployment} (distinct : (ds.map (·.id)).Nodup) :
    ((unfinished ds).map (·.id)).Nodup :=
  ((List.mergeSort_perm _ _).map _).nodup_iff.2
    (distinct.sublist (List.filter_sublist.map _))

theorem pairwise_unfinished {ds : List Deployment} (distinct : (ds.map (·.id)).Nodup) :
    (unfinished ds).Pairwise Deployment.Before := by
  have sorted : (unfinished ds).Pairwise fun a b => Deployment.dueBefore a b :=
    @List.pairwise_mergeSort _ Deployment.dueBefore
      (fun _ _ _ => Deployment.dueBefore_trans) Deployment.dueBefore_total _
  exact (sorted.and (List.pairwise_map.1 (nodup_unfinished distinct))).imp fun ⟨before, hne⟩ =>
    Deployment.before_of_dueBefore before hne

theorem listed_perm {ps qs : List Participant} (perm : ps.Perm qs)
    (distinct : (ps.map (·.eui)).Nodup) : listed ps = listed qs := by
  refine eq_of_ordered Participant.Before.asymm (pairwise_listed distinct)
    (pairwise_listed ((perm.map _).nodup_iff.1 distinct)) fun p => ?_
  unfold listed
  rw [List.mem_mergeSort, List.mem_mergeSort, perm.mem_iff]

/-- **The order of the search does not matter.** -/
theorem unfinished_perm {ds es : List Deployment} (perm : ds.Perm es)
    (distinct : (ds.map (·.id)).Nodup) : unfinished ds = unfinished es := by
  refine eq_of_ordered Deployment.Before.asymm (pairwise_unfinished distinct)
    (pairwise_unfinished ((perm.map _).nodup_iff.1 distinct)) fun d => ?_
  rw [mem_unfinished_iff, mem_unfinished_iff, perm.mem_iff]

/-! ### What is stored, each record once -/

theorem mem_participants_iff_participant? {p : Participant} :
    p ∈ s.participants id ↔ ∃ eui, s.participant? id eui = some p := by
  simp only [mem_participants_iff, participant?_eq_some_iff]
  exact exists_comm

theorem nodup_participants (hs : s.Keyed) (id : DeploymentId) :
    ((s.participants id).map (·.eui)).Nodup :=
  List.pairwise_map.2 <| (Transaction.pairwise_participants hs id).imp fun before same =>
    Nat.ne_of_lt before (congrArg rank same)

/-- The records of all rollouts, in the order of their identifiers. -/
def deployments (s : Store) : List Deployment := s.entries.values.map (·.deployment)

theorem mem_deployments_iff (hs : s.Keyed) : d ∈ s.deployments ↔ s.get d.id = some d := by
  unfold deployments
  rw [List.mem_map, get_eq_some_iff]
  constructor
  · rintro ⟨e, he, rfl⟩
    obtain ⟨id, found⟩ := Table.mem_values_iff.1 he
    obtain rfl := hs.deployment found
    exact ⟨e, found, rfl⟩
  · rintro ⟨e, found, same⟩
    exact ⟨e, Table.mem_values_iff.2 ⟨_, found⟩, same⟩

theorem nodup_deployments (hs : s.Keyed) : (s.deployments.map (·.id)).Nodup := by
  have own : s.deployments.map (·.id) = s.entries.keys := by
    unfold deployments Table.values Table.keys
    rw [List.map_map, List.map_map]
    exact List.map_congr_left fun row hrow => hs.deployment (Table.mem_rows_iff.1 hrow)
  exact own ▸ s.entries.nodup_keys

/-! ### The order in which devices are enrolled -/

theorem find?_enrolAll {table : Table DevEui Participant}
    (h : enrolAll id clock devices = .ok table) {eui : DevEui} {p : Participant} :
    table.find? eui = some p ↔ ∃ device ∈ devices, device.eui = eui ∧ p = .enrol id clock device := by
  refine ⟨of_enrolAll h, ?_⟩
  rintro ⟨device, mem, rfl, rfl⟩
  have stored : Participant.enrol id clock device ∈ table.values :=
    (values_enrolAll h).mem_iff.2 (List.mem_map_of_mem mem)
  obtain ⟨eui, found⟩ := Table.mem_values_iff.1 stored
  obtain ⟨device', -, rfl, same⟩ := of_enrolAll h found
  rw [show device.eui = device'.eui from congrArg Participant.eui same]
  exact found

theorem enrolAll_perm (perm : devices.Perm devices') {table : Table DevEui Participant}
    (h : enrolAll id clock devices = .ok table) : enrolAll id clock devices' = .ok table := by
  have distinct : (devices'.map (·.eui)).Nodup :=
    (perm.map _).nodup_iff.1 (enrolAll_ok_iff.1 ⟨_, h⟩)
  obtain ⟨table', h'⟩ : ∃ table', enrolAll id clock devices' = .ok table' :=
    enrolAll_ok_iff.2 distinct
  have same : table' = table := by
    refine Table.ext fun eui => Option.ext fun p => ?_
    rw [find?_enrolAll h, find?_enrolAll h']
    simp only [perm.mem_iff]
  rw [h', same]

/-- **Devices may be enrolled in any order.** -/
theorem create_perm (perm : devices.Perm devices') (s : Store) (d : Deployment) :
    (s.create d devices).2 = (s.create d devices').2 := by
  unfold create
  split
  · rfl
  cases h : enrolAll d.id d.createdAt devices with
  | ok table => rw [enrolAll_perm perm h]
  | error eui =>
    cases h' : enrolAll d.id d.createdAt devices' with
    | error eui' => rfl
    | ok table =>
      rw [enrolAll_perm perm.symm h'] at h
      cases h

end Store

namespace Shared

/-- **Listings lose nothing and repeat nothing.** After every history the devices of each rollout
have one listing, in which each is once, by the bytes of its name and then by its EUI. Every page is
the slice of it that limit and offset name; the pages that a client gets that asks for one after the
other until one is empty are the listing, as far as offsets of 32 bits go, and so all of it if it
has no more entries than there are offsets. Of the rollouts that are not over there is one listing,
each once, by time and identifier, and the first of them are given, as many as asked for if there
are as many. The listings are the same in whatever order the store's records are gone through, and
in whatever order rollouts and their devices came in. -/
theorem pages_lose_nothing (h : List Stroke) :
    (∀ id, ∃ listing : List Participant,
      (∀ p, p ∈ listing ↔ ∃ eui, (after h).store.participant? id eui = some p) ∧
      listing.Pairwise Participant.Before ∧ (listing.map (·.eui)).Nodup ∧
      (∀ limit offset, (after h).store.listDevices id limit offset =
        (listing.drop offset.toNat).take limit.toNat) ∧
      (∀ limit positive,
        (browse ((after h).store.listDevices id limit) limit positive 0).flatten =
          listing.take (reach limit 0) ∧
        (listing.length ≤ 4294967296 →
          (browse ((after h).store.listDevices id limit) limit positive 0).flatten = listing)) ∧
      ∀ m devices, TwoMaps.After h m → m.participants.find? id = some devices →
        ∀ ps, ps.Perm devices.values → Store.listed ps = listing) ∧
    (∃ pending : List Deployment,
      (∀ d, d ∈ pending ↔
        (after h).store.get d.id = some d ∧ d.progress.stage ≠ .done) ∧
      pending.Pairwise Deployment.Before ∧ (pending.map (·.id)).Nodup ∧
      (∀ limit, (after h).store.listPending limit = pending.take limit.toNat) ∧
      ∀ m, TwoMaps.After h m → ∀ ds, ds.Perm m.deployments.values →
        Store.unfinished ds = pending) ∧
    (∀ later earlier news news', h = later ++ creations news ++ earlier → news.Perm news' →
      (news.map (·.1.id)).Nodup → after (later ++ creations news' ++ earlier) = after h) ∧
    ∀ later earlier d devices devices', h = later ++ .create d devices :: earlier →
      devices.Perm devices' → after (later ++ .create d devices' :: earlier) = after h := by
  have keyed := (sound_after h).keyed
  refine ⟨fun id => ?_, ?_, ?_, ?_⟩
  · have distinct := Store.nodup_participants keyed id
    refine ⟨Store.listed ((after h).store.participants id), fun p => ?_,
      Store.pairwise_listed distinct, ?_, fun _ _ => rfl, fun limit positive => ?_, ?_⟩
    · exact List.mem_mergeSort.trans Store.mem_participants_iff_participant?
    · exact ((List.mergeSort_perm _ _).map _).nodup_iff.2 distinct
    · have pages := @flatten_browse _ _ limit (Store.listed ((after h).store.participants id))
        (fun _ => rfl) positive 0
      exact ⟨pages, fun few => pages.trans <|
        List.take_of_length_le (Nat.le_trans few (le_reach positive))⟩
    · rintro m devices kept found ps perm
      obtain rfl := TwoMaps.after_iff.1 kept
      have own : (after h).store.participants id = devices.values := by
        rw [TwoMaps.ofStore, Table.find?_map] at found
        obtain ⟨e, stored, rfl⟩ := Option.map_eq_some_iff.1 found
        rw [Store.participants, stored]
      rw [own] at distinct ⊢
      exact (Store.listed_perm perm.symm distinct).symm
  · have distinct := Store.nodup_deployments keyed
    refine ⟨Store.unfinished (after h).store.deployments, fun d => ?_,
      Store.pairwise_unfinished distinct, Store.nodup_unfinished distinct, fun _ => rfl, ?_⟩
    · rw [Store.mem_unfinished_iff, Store.mem_deployments_iff keyed]
    · rintro m kept ds perm
      obtain rfl := TwoMaps.after_iff.1 kept
      rw [TwoMaps.ofStore, Table.values_map] at perm
      exact (Store.unfinished_perm perm.symm distinct).symm
  · rintro later earlier news news' rfl perm distinct
    unfold after
    rw [List.append_assoc, List.append_assoc, run_append, run_append, run_append, run_append,
      run_creations perm distinct]
  · rintro later earlier d devices devices' rfl perm
    unfold after
    rw [run_append, run_append]
    show ((empty.run earlier).step (.create d devices')).run later = _
    rw [step, ← Store.create_perm perm]
    rfl

end Shared

end FirmwareRollout
