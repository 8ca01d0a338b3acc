import Braidcast.Lib.Run
import Braidcast.Schedule.Setup

/-!
# What was changed is put back

The setup's records say, against the configuration it was first given, exactly what is
changed now: a recorded binding was on and is off, a recorded bag is the merged one, and
everything else is as it was.
-/
namespace Braidcast.Schedule

open Braidcast.Lib (Json Fields Moment Run trace run_trace input_of_mem_trace)

/-! ### Reading the routing -/

/-- Whether the binding is on, if there is one. -/
def Routing.enabled (r : Routing) (uuid : String) : Option Bool := (r.find uuid).map (·.enabled)

theorem Routing.enabled_setEnabled (r : Routing) (uuid other : String) (enabled : Bool) :
    (r.setEnabled uuid enabled).enabled other =
      if other = uuid then (r.enabled other).map (fun _ => enabled) else r.enabled other := by
  simp only [Routing.enabled, find, setEnabled]
  induction r.bindings with
  | nil => simp
  | cons b rest ih =>
    by_cases here : b.uuid = other
    · by_cases hit : other = uuid
      · simp [here, hit]
      · simp [here, hit]
    · by_cases hit : b.uuid = uuid
      · simp only [List.map_cons, hit, if_true]
        rw [List.find?_cons_of_neg (by simpa [hit] using here), ih,
          List.find?_cons_of_neg (by simpa using here)]
      · simp only [List.map_cons, hit, if_false]
        rw [List.find?_cons_of_neg (by simpa using here), ih, List.find?_cons_of_neg (by simpa using here)]

theorem Routing.enabled_of_mem {r : Routing} {b : RoutingBinding} (member : b ∈ r.bindings) :
    r.enabled b.uuid = some b.enabled := by
  rw [Routing.enabled, find, Lib.find?_key_eq_some r.nodup member]
  rfl

namespace Setup

/-- A write that would change the flag either lands, and is known to, or is refused and leaves things
alone. -/
theorem writeLanded_cases (s : Setup) (outcome : String → Outcome) (uuid : String) (enabled : Bool)
    (known : s.routing.enabled uuid = some (!enabled)) :
    s.writeLanded outcome uuid enabled = ({ s with routing := s.routing.setEnabled uuid enabled }, true) ∨
      outcome uuid = .refused ∧ s.writeLanded outcome uuid enabled = (s, false) := by
  have landed : (s.routing.setEnabled uuid enabled).enabled uuid = some enabled := by
    rw [Routing.enabled_setEnabled, if_pos rfl, known]
    rfl
  unfold writeLanded write
  cases outcome uuid with
  | accepted => exact .inl rfl
  | refusedLanded =>
    left
    obtain ⟨b, found, same⟩ := Option.map_eq_some_iff.mp landed
    simp [found, same]
  | refused =>
    refine .inr ⟨rfl, ?_⟩
    obtain ⟨b, found, same⟩ := Option.map_eq_some_iff.mp known
    simp [found, same]

theorem record_fresh {uuid : String} {enabled : Bool} {records : List TouchedBinding}
    (fresh : uuid ∉ records.map (·.uuid)) :
    record uuid enabled records = records ++ [⟨uuid, !enabled, enabled⟩] := by
  induction records with
  | nil => rfl
  | cons touched rest ih =>
    simp only [List.map_cons, List.mem_cons, not_or] at fresh
    simp [record, Ne.symm fresh.1, ih fresh.2]

end Setup

/-! ### What the records say -/

/-- The records of `s`, against the configuration `origin` it started from. -/
structure Recorded (origin s : Setup) : Prop where
  narrows : ∀ t ∈ s.bindings, t.before = true ∧ t.after = false ∧ origin.routing.enabled t.uuid = some true
  once : (s.bindings.map (·.uuid)).Nodup
  routing : ∀ uuid, s.routing.enabled uuid =
    if uuid ∈ s.bindings.map (·.uuid) then some false else origin.routing.enabled uuid
  merged : ∀ o ∈ s.overrides, s.metadata o.profileId = some o.after ∧
    o.before = (origin.metadata o.profileId).getD [] ∧ o.existed = !o.before.isEmpty
  planned : (s.overrides.map (·.profileId)).Nodup
  metadata : ∀ p, p ∉ s.overrides.map (·.profileId) →
    (s.metadata p).getD [] = (origin.metadata p).getD []

/-- What is not applied owes nothing. -/
def Owed (s : Setup) : Prop := s.applied = false → s.bindings = [] ∧ s.overrides = []

namespace Setup

variable {origin s : Setup}

/-! ### Narrowing -/

theorem flip_recorded (outcome : String → Outcome) {uuid : String} (recorded : Recorded origin s)
    (on : s.routing.enabled uuid = some true) :
    (s.flip outcome uuid false = (s, false)) ∨
      ((s.flip outcome uuid false).2 = true ∧ Recorded origin (s.flip outcome uuid false).1 ∧
        (s.flip outcome uuid false).1.overrides = s.overrides ∧
        ∀ other, other ≠ uuid → (s.flip outcome uuid false).1.routing.enabled other = s.routing.enabled other) := by
  -- a binding that is on has not been recorded: recorded ones are off
  have fresh : uuid ∉ s.bindings.map (·.uuid) := by
    intro touched
    rw [recorded.routing, if_pos touched] at on
    cases on
  have original : origin.routing.enabled uuid = some true := by
    rw [recorded.routing, if_neg fresh] at on
    exact on
  simp only [flip]
  rcases writeLanded_cases s outcome uuid false on with landed | ⟨-, refused⟩
  · right
    simp only [landed, if_true, record_fresh fresh]
    refine ⟨trivial, ?_, trivial, fun other differs => ?_⟩
    · refine ⟨?_, ?_, ?_, recorded.merged, recorded.planned, recorded.metadata⟩
      · intro t member
        rcases List.mem_append.mp member with old | new
        · exact recorded.narrows t old
        · rw [List.mem_singleton.mp new]
          exact ⟨rfl, rfl, original⟩
      · rw [List.map_append, List.nodup_append_comm]
        simpa using ⟨by simpa using fresh, recorded.once⟩
      · intro other
        rw [Routing.enabled_setEnabled]
        by_cases here : other = uuid
        · simp [here, on]
        · rw [if_neg here, recorded.routing]
          simp [here]
    · rw [Routing.enabled_setEnabled, if_neg differs]
  · left
    simp [refused]

theorem narrowFrom_recorded (outcome : String → Outcome) (wanted : List String) {rest : List RoutingBinding}
    (nodup : (rest.map (·.uuid)).Nodup) (agrees : ∀ b ∈ rest, s.routing.enabled b.uuid = some b.enabled)
    (recorded : Recorded origin s) :
    Recorded origin (narrowFrom outcome wanted rest s).1 ∧
      (narrowFrom outcome wanted rest s).1.overrides = s.overrides := by
  induction rest generalizing s with
  | nil => exact ⟨recorded, rfl⟩
  | cons b rest ih =>
    obtain ⟨fresh, nodup⟩ := List.nodup_cons.mp nodup
    have later : ∀ c ∈ rest, s.routing.enabled c.uuid = some c.enabled :=
      fun c member => agrees c (by simp [member])
    simp only [narrowFrom]
    split
    next unwanted =>
      have on : s.routing.enabled b.uuid = some true := unwanted.1 ▸ agrees b (by simp)
      rcases flip_recorded outcome recorded on with refused | ⟨landed, flipped, kept, others⟩
      · simp only [refused, Bool.false_eq_true, if_false]
        exact ⟨recorded, trivial⟩
      · simp only [landed, if_true]
        -- the flip leaves the bindings still to be looked at
        have agrees' : ∀ c ∈ rest, (s.flip outcome b.uuid false).1.routing.enabled c.uuid = some c.enabled := by
          intro c member
          rw [others c.uuid fun same => fresh (List.mem_map.mpr ⟨c, member, same⟩)]
          exact later c member
        obtain ⟨narrowed, same⟩ := ih nodup agrees' flipped
        exact ⟨narrowed, same.trans kept⟩
    · exact ih nodup later recorded

/-! ### Restoring -/

/-- Going over the records: one whose binding is still off is put back on, or refused and stays; the
others are let go. -/
theorem restoreBindings_spec (outcome : String → Outcome) (current : Routing) {records : List TouchedBinding}
    (nodup : (records.map (·.uuid)).Nodup)
    (narrows : ∀ t ∈ records, t.before = true ∧ t.after = false)
    (seen : ∀ t ∈ records, s.routing.enabled t.uuid = current.enabled t.uuid) :
    ∃ routing refused, restoreBindings outcome current records s = ({ s with routing }, refused) ∧
      refused.Sublist records ∧
      (∀ t ∈ refused, outcome t.uuid = .refused ∧ current.enabled t.uuid = some false) ∧
      ∀ uuid, routing.enabled uuid =
        if uuid ∈ records.map (·.uuid) ∧ uuid ∉ refused.map (·.uuid) ∧ current.enabled uuid = some false then
          some true
        else s.routing.enabled uuid := by
  induction records generalizing s with
  | nil => exact ⟨s.routing, [], rfl, .slnil, by simp, by simp⟩
  | cons t records ih =>
    obtain ⟨fresh, nodup⟩ := List.nodup_cons.mp nodup
    obtain ⟨before, after⟩ := narrows t (by simp)
    have apart : ∀ c ∈ records, c.uuid ≠ t.uuid :=
      fun c member same => fresh (List.mem_map.mpr ⟨c, member, same⟩)
    have later : ∀ c ∈ records, s.routing.enabled c.uuid = current.enabled c.uuid :=
      fun c member => seen c (by simp [member])
    have rest := fun c member => narrows c (List.mem_cons_of_mem t member)
    by_cases off : current.enabled t.uuid = some false
    · obtain ⟨now, found, isOff⟩ := Option.map_eq_some_iff.mp off
      simp only [restoreBindings, found, isOff, after, before, ne_eq, not_true_eq_false, if_false]
      rcases writeLanded_cases s outcome t.uuid true ((seen t (by simp)).trans off) with landed | ⟨why, stays⟩
      · simp only [landed, if_true]
        obtain ⟨routing, refused, same, sub, reason, spec⟩ := ih (s := { s with
            routing := s.routing.setEnabled t.uuid true }) nodup rest (fun c member => by
          rw [Routing.enabled_setEnabled, if_neg (apart c member)]
          exact later c member)
        refine ⟨routing, refused, by rw [same], sub.cons t, reason, fun uuid => ?_⟩
        rw [spec, Routing.enabled_setEnabled]
        -- this record landed, so it is not among those refused later
        by_cases here : uuid = t.uuid
        · have gone : t.uuid ∉ refused.map (·.uuid) := fun kept => fresh ((sub.map _).subset kept)
          rw [here, if_neg fun both => fresh both.1, if_pos rfl, if_pos ⟨by simp, gone, off⟩, seen t (by simp), off]
          rfl
        · simp [here]
      · simp only [stays]
        obtain ⟨routing, refused, same, sub, reason, spec⟩ := ih (s := s) nodup rest later
        refine ⟨routing, t :: refused, by rw [same]; rfl, sub.cons_cons t, ?_, fun uuid => ?_⟩
        · intro c member
          rcases List.mem_cons.mp member with rfl | other
          · exact ⟨why, off⟩
          · exact reason c other
        · rw [spec]
          by_cases here : uuid = t.uuid
          · rw [here, if_neg fun both => fresh both.1, if_neg fun both => both.2.1 (by simp)]
          · simp [here]
    · have skipped : restoreBindings outcome current (t :: records) s = restoreBindings outcome current records s := by
        rw [restoreBindings]
        cases found : current.find t.uuid with
        | none => rfl
        | some now =>
          have on : now.enabled ≠ t.after := by
            intro same
            exact off (by simp [Routing.enabled, found, same, after])
          simp only [if_pos on]
      obtain ⟨routing, refused, same, sub, reason, spec⟩ := ih (s := s) nodup rest later
      refine ⟨routing, refused, skipped.trans same, sub.cons t, reason, fun uuid => ?_⟩
      rw [spec]
      by_cases here : uuid = t.uuid
      · rw [here, if_neg fun both => fresh both.1, if_neg fun both => off both.2.2]
      · simp [here]

/-- Writes to one profile each: every profile ends with the bag written to it. -/
theorem foldl_writeMetadata {f : Setup → PlannedOverride → Setup} (bag : PlannedOverride → Option Fields)
    (overrides : List PlannedOverride) (nodup : (overrides.map (·.profileId)).Nodup)
    (writes : ∀ o ∈ overrides, ∀ t : Setup, t.metadata o.profileId = s.metadata o.profileId → f t o = t.writeMetadata o.profileId (bag o)) :
    ∃ metadata, overrides.foldl f s = { s with metadata } ∧ (∀ o ∈ overrides, metadata o.profileId = bag o) ∧
      ∀ p, p ∉ overrides.map (·.profileId) → metadata p = s.metadata p := by
  induction overrides generalizing s with
  | nil => exact ⟨s.metadata, rfl, by simp, fun _ _ => rfl⟩
  | cons o overrides ih =>
    obtain ⟨fresh, nodup⟩ := List.nodup_cons.mp nodup
    have first := writes o List.mem_cons_self s rfl
    obtain ⟨metadata, same, written, others⟩ := ih (s := f s o) nodup fun c member t kept => by
      have apart : c.profileId ≠ o.profileId := fun same => fresh (List.mem_map.mpr ⟨c, member, same⟩)
      refine writes c (List.mem_cons_of_mem _ member) t (kept.trans ?_)
      rw [first]
      exact Function.update_of_ne apart ..
    refine ⟨metadata, by rw [List.foldl_cons, same, first]; rfl, ?_, ?_⟩
    · intro c member
      rcases List.mem_cons.mp member with rfl | later
      · rw [others c.profileId fresh, first]
        exact Function.update_self ..
      · exact written c later
    · intro p absent
      simp only [List.map_cons, List.mem_cons, not_or] at absent
      rw [others p absent.2, first]
      exact Function.update_of_ne absent.1 ..

theorem restoreOverrides_spec {overrides : List PlannedOverride}
    (nodup : (overrides.map (·.profileId)).Nodup)
    (merged : ∀ o ∈ overrides, s.metadata o.profileId = some o.after ∧ o.existed = !o.before.isEmpty) :
    ∃ metadata, overrides.foldl restoreOverride s = { s with metadata } ∧
      (∀ o ∈ overrides, (metadata o.profileId).getD [] = o.before) ∧
      ∀ p, p ∉ overrides.map (·.profileId) → metadata p = s.metadata p := by
  obtain ⟨metadata, same, back, others⟩ := foldl_writeMetadata (s := s) (f := restoreOverride)
    (fun o => if o.existed then some o.before else none) _ nodup fun o member t kept => by
      simp [restoreOverride, read, kept, (merged o member).1]
  refine ⟨metadata, same, fun o member => ?_, others⟩
  rw [back o member, (merged o member).2]
  cases empty : o.before <;> simp

/-- `Revert` keeps the records true, and unless something streams owes nothing afterwards
that it does not record. -/
theorem revert_recorded (streaming : Bool) (outcome : String → Outcome) (recorded : Recorded origin s) :
    Recorded origin (s.revert streaming outcome) ∧
      (Owed s ∨ streaming = false → Owed (s.revert streaming outcome)) ∧
      ((s.revert streaming outcome).overrides = [] ∨ streaming = true ∧ s.revert streaming outcome = s) := by
  simp only [revert]
  split
  next nothing =>
    refine ⟨⟨recorded.narrows, recorded.once, recorded.routing, recorded.merged, recorded.planned,
      recorded.metadata⟩, fun _ _ => nothing, .inl nothing.2⟩
  · split
    next streams =>
      refine ⟨recorded, fun owed => owed.resolve_right (by simp [streams]), .inr ⟨streams, rfl⟩⟩
    -- what is recorded is off, so each record is put back on or refused again
    · have off : ∀ t ∈ s.bindings, s.routing.enabled t.uuid = some false := by
        intro t member
        rw [recorded.routing, if_pos (List.mem_map.mpr ⟨t, member, rfl⟩)]
      obtain ⟨routing, refused, same, sub, -, spec⟩ := restoreBindings_spec (s := s) outcome s.routing
        recorded.once
        (fun t member => ⟨(recorded.narrows t member).1, (recorded.narrows t member).2.1⟩) (fun _ _ => rfl)
      obtain ⟨metadata, same', back, others⟩ := restoreOverrides_spec (s := { s with routing }) recorded.planned
        (fun o member => ⟨(recorded.merged o member).1, (recorded.merged o member).2.2⟩)
      simp only [same, same']
      refine ⟨⟨?_, ?_, ?_, by simp, by simp, ?_⟩, ?_, .inl trivial⟩
      · exact fun t member => recorded.narrows t (sub.subset member)
      · exact recorded.once.sublist (sub.map _)
      · intro uuid
        rw [spec]
        by_cases kept : uuid ∈ refused.map (·.uuid)
        -- refused: it stays off and keeps its record
        · obtain ⟨t, member, rfl⟩ := List.mem_map.mp kept
          rw [if_neg fun both => both.2.1 kept, if_pos kept, off t (sub.subset member)]
        · rw [if_neg kept]
          by_cases touched : uuid ∈ s.bindings.map (·.uuid)
          · obtain ⟨t, member, rfl⟩ := List.mem_map.mp touched
            rw [if_pos ⟨touched, kept, off t member⟩, (recorded.narrows t member).2.2]
          · rw [if_neg fun both => touched both.1, recorded.routing, if_neg touched]
      · intro p _
        by_cases touched : p ∈ s.overrides.map (·.profileId)
        · obtain ⟨o, member, rfl⟩ := List.mem_map.mp touched
          exact (back o member).trans (recorded.merged o member).2.1
        · exact (congrArg (·.getD []) (others p touched)).trans (recorded.metadata p touched)
      · intro _ idle
        simpa using idle

/-! ### Applying -/

theorem narrowRouting_recorded (a : SetupAnswers) (destinations : List ScheduleDestination)
    (recorded : Recorded origin s) :
    Recorded origin (s.narrowRouting a destinations).1 ∧
      ((s.narrowRouting a destinations).2 = none →
        (s.narrowRouting a destinations).1.overrides = s.overrides) ∧
      (Owed s → a.streamingAtAbandon = false → (s.narrowRouting a destinations).2 ≠ none →
        Owed (s.narrowRouting a destinations).1) := by
  unfold narrowRouting
  dsimp only
  split
  · exact ⟨recorded, by simp, fun owed _ _ => owed⟩
  · obtain ⟨narrowed, same⟩ := narrowFrom_recorded a.narrowing (wanted s.routing.bindings destinations)
      s.routing.nodup
      (fun b member => Routing.enabled_of_mem member) recorded
    split
    · exact ⟨narrowed, fun _ => same, fun _ _ failed => absurd rfl failed⟩
    · obtain ⟨reverted, owes, _⟩ := revert_recorded a.streamingAtAbandon a.abandoning narrowed
      exact ⟨reverted, by simp, fun _ grounded _ => owes (.inr grounded)⟩

/-- The plan captures each profile once, with the bag it read. -/
structure Plans (read : String → Json) (p : List PlannedOverride × List String) : Prop where
  captured : p.1.map (·.profileId) = p.2
  once : p.2.Nodup
  before : ∀ o ∈ p.1, o.existed = !o.before.isEmpty ∧ ∀ bag, read o.profileId = .obj bag → o.before = bag

theorem planOne_plans (parseJson : String → Option Json) {read : String → Json}
    {p : List PlannedOverride × List String} (plans : Plans read p) (d : ScheduleDestination) :
    Plans read (planOne parseJson read p d) := by
  unfold planOne
  split
  · exact plans
  next new =>
    dsimp only
    split
    · exact plans
    · refine ⟨by simp [plans.captured], ?_, fun o member => ?_⟩
      · rw [List.nodup_append_comm]
        simpa using ⟨(not_or.mp new).2, plans.once⟩
      · rcases List.mem_append.mp member with old | new
        · exact plans.before o old
        · rw [List.mem_singleton.mp new]
          exact ⟨rfl, fun bag found => by simp [found]⟩

theorem planMetadata_plans (parseJson : String → Option Json) (destinations : List ScheduleDestination)
    (read : String → Json) : Plans read (destinations.foldl (planOne parseJson read) ([], [])) :=
  List.foldlRecOn (b := ([], [])) destinations (planOne parseJson read) (motive := Plans read)
    ⟨rfl, .nil, by simp⟩ fun _ plans d _ => planOne_plans parseJson plans d

theorem applyRouting_recorded (a : SetupAnswers) (destinations : List ScheduleDestination)
    (abandons : a.streamingAtAbandon = false) (recorded : Recorded origin s) (owed : Owed s) :
    Recorded origin (s.applyRouting a destinations).1 ∧ Owed (s.applyRouting a destinations).1 := by
  unfold applyRouting
  split
  · exact ⟨recorded, owed⟩
  · obtain ⟨reverted, owes, _⟩ := revert_recorded a.streamingAtOpening a.opening recorded
    obtain ⟨narrowed, _, failed⟩ := narrowRouting_recorded a destinations reverted
    dsimp only
    split
    next reason =>
      exact ⟨narrowed, failed (owes (.inl owed)) abandons (by simpa [Option.isSome_iff_ne_none] using reason)⟩
    · exact ⟨⟨narrowed.narrows, narrowed.once, narrowed.routing, narrowed.merged, narrowed.planned,
        narrowed.metadata⟩, fun idle => by cases idle⟩

theorem apply_recorded (parseJson : String → Option Json) (a : SetupAnswers)
    (destinations : List ScheduleDestination) (opens : s.overrides ≠ [] → a.streamingAtOpening = false)
    (abandons : a.streamingAtAbandon = false) (recorded : Recorded origin s) (owed : Owed s) :
    Recorded origin (s.apply parseJson a destinations).1 ∧ Owed (s.apply parseJson a destinations).1 := by
  unfold apply
  split
  · exact ⟨recorded, owed⟩
  · obtain ⟨reverted, owes, opened⟩ := revert_recorded a.streamingAtOpening a.opening recorded
    -- the opening `Revert` put back every bag, or something streamed and there was none
    have clean : (s.revert a.streamingAtOpening a.opening).overrides = [] := by
      rcases opened with clean | ⟨streams, same⟩
      · exact clean
      · by_contra held
        rw [same] at held
        rw [opens held] at streams
        cases streams
    obtain ⟨narrowed, kept, failed⟩ := narrowRouting_recorded a destinations reverted
    dsimp only
    split
    next reason =>
      exact ⟨narrowed, failed (owes (.inl owed)) abandons (by simpa [Option.isSome_iff_ne_none] using reason)⟩
    next complete =>
      have unplanned := (kept (by simpa using complete)).trans clean
      generalize (narrowRouting a destinations (s.revert a.streamingAtOpening a.opening)).1 = v
        at narrowed unplanned ⊢
      have plans := planMetadata_plans parseJson destinations v.read
      obtain ⟨metadata, same, written, others⟩ := foldl_writeMetadata
        (s := { v with overrides := planMetadata parseJson destinations v.read })
        (f := fun s planned => s.writeMetadata planned.profileId (some planned.after)) (some ·.after)
        (planMetadata parseJson destinations v.read) (plans.captured ▸ plans.once) fun _ _ _ _ => rfl
      simp only [same]
      -- nothing is planned yet, so every bag read is the original one
      have unchanged : ∀ p, (v.metadata p).getD [] = (origin.metadata p).getD [] :=
        fun p => narrowed.metadata p (by simp [unplanned])
      refine ⟨⟨narrowed.narrows, narrowed.once, narrowed.routing, fun o member => ?_, ?_, fun p absent => ?_⟩,
        fun idle => by cases idle⟩
      · obtain ⟨existed, before⟩ := plans.before o member
        exact ⟨written o member, (before _ rfl).trans (unchanged o.profileId), existed⟩
      · exact plans.captured ▸ plans.once
      · exact (congrArg (·.getD []) (others p absent)).trans (unchanged p)

end Setup

/-! ### Whole runs -/

/-- What the setup promises against the configuration it was first given. -/
def PutsBack (origin s : Setup) : Prop :=
  (s.applied = false →
    (∀ uuid, s.routing.enabled uuid = origin.routing.enabled uuid) ∧ ∀ p, s.read p = origin.read p) ∧
  (s.applied = true → ∀ uuid, s.routing.enabled uuid ≠ origin.routing.enabled uuid →
    ∃ t ∈ s.bindings, t.uuid = uuid)

/-- In a call that found nothing streaming on entry, nothing streams when the `Revert` it opens
with is to put back a bag, nor when it abandons a refused narrowing. -/
def StaysOff (m : Moment Setup SetupCall) : Prop :=
  match m.input with
  | .apply a _ => (m.before.overrides ≠ [] → a.streamingAtOpening = false) ∧ a.streamingAtAbandon = false
  | .applyRouting a _ => a.streamingAtAbandon = false
  | .revert _ _ => True

theorem putsBack_of_recorded {origin s : Setup} (recorded : Recorded origin s) (owed : Owed s) :
    PutsBack origin s := by
  constructor
  · intro idle
    obtain ⟨untouched, unplanned⟩ := owed idle
    refine ⟨fun uuid => by rw [recorded.routing]; simp [untouched], fun p => ?_⟩
    simp only [Setup.read, recorded.metadata p (by simp [unplanned])]
  · intro _ uuid differs
    by_contra unrecorded
    -- a binding that differs from the origin is one the records name
    refine differs ((recorded.routing uuid).trans (if_neg fun touched => unrecorded ?_))
    obtain ⟨t, member, same⟩ := List.mem_map.mp touched
    exact ⟨t, member, same⟩

theorem fresh_recorded (routing : Routing) (metadata : String → Option Fields) :
    Recorded { routing, metadata } { routing, metadata } :=
  ⟨by simp, .nil, by simp, by simp, .nil, fun _ _ => rfl⟩

theorem setup_step_recorded {parseJson : String → Option Json} {origin : Setup} (m : Moment Setup SetupCall)
    (off : StaysOff m) (step : m.before.step parseJson m.input = m.after)
    (held : Recorded origin m.before ∧ Owed m.before) : Recorded origin m.after ∧ Owed m.after := by
  obtain ⟨before, call, after⟩ := m
  obtain rfl : before.step parseJson call = after := step
  obtain ⟨recorded, owed⟩ := held
  cases call with
  | apply a destinations => exact Setup.apply_recorded parseJson a destinations off.1 off.2 recorded owed
  | applyRouting a destinations => exact Setup.applyRouting_recorded a destinations off recorded owed
  | revert streaming outcome =>
    obtain ⟨reverted, owes, _⟩ := Setup.revert_recorded streaming outcome recorded
    exact ⟨reverted, owes (.inl owed)⟩

/-- What the setup changed it puts back, in every run in which no broadcast starts in the
middle of one of its calls. -/
theorem setup_puts_back (parseJson : String → Option Json) {routing : Routing}
    {metadata : String → Option Fields} {ms : List (Moment Setup SetupCall)} {u : Setup}
    (run : Run (fun s call t => s.step parseJson call = t) { routing, metadata } ms u)
    (off : ∀ m ∈ ms, StaysOff m) :
    PutsBack { routing, metadata } u ∧ ∀ m ∈ ms, PutsBack { routing, metadata } m.after := by
  obtain ⟨last, each⟩ := run.invariant
    (P := fun s => Recorded { routing, metadata } s ∧ Owed s) setup_step_recorded off
    ⟨fresh_recorded routing metadata, fun _ => ⟨rfl, rfl⟩⟩
  exact ⟨putsBack_of_recorded last.1 last.2,
    fun m member => putsBack_of_recorded (each m member).2.1 (each m member).2.2⟩

def threeBindings : Routing where
  bindings := [⟨"b1", "p1", true⟩, ⟨"b2", "p2", true⟩, ⟨"b3", "p3", true⟩]
  nodup := by decide

/-- An entry with a title for the third profile is loaded, and put back. -/
def loadedThenReverted : List SetupCall :=
  [.apply {} [{ profileId := "p3", title := "t" }], .revert false fun _ => .accepted]

theorem setup_puts_back_loaded :
    let start : Setup := { routing := threeBindings, metadata := fun _ => none }
    let middle := start.step (fun _ => none) (.apply {} [{ profileId := "p3", title := "t" }])
    let last := loadedThenReverted.foldl (Setup.step fun _ => none) start
    middle.routing.enabled "b1" = some false ∧ last.applied = false ∧ last.routing.enabled "b1" = some true := by
  intro start middle last
  have off : ∀ m ∈ trace (Setup.step fun _ => none) start loadedThenReverted, StaysOff m := by
    intro m member
    have called := input_of_mem_trace member
    simp only [StaysOff]
    simp only [loadedThenReverted, List.mem_cons, List.not_mem_nil, or_false] at called
    rcases called with same | same <;> rw [same]
    · exact ⟨fun _ => rfl, rfl⟩
    · trivial
  have idle : last.applied = false := by decide
  have back := (setup_puts_back (fun _ => none) (run_trace (Setup.step fun _ => none) start loadedThenReverted)
    off).1.1 idle
  exact ⟨by decide, idle, (back.1 "b1").trans (by decide)⟩

/-- The second of two bindings to switch off is refused, and a broadcast starts before the
first is switched back on. -/
def refusedThenStreaming : SetupCall :=
  .apply { streamingAtAbandon := true, narrowing := fun uuid => if uuid = "b2" then .refused else .accepted }
    [{ profileId := "p3" }]

theorem setup_leaves_off :
    ¬∀ (parseJson : String → Option Json) (routing : Routing) (metadata : String → Option Fields)
      (ms : List (Moment Setup SetupCall)) (u : Setup),
      Run (fun s call t => s.step parseJson call = t) { routing, metadata } ms u →
      PutsBack { routing, metadata } u := by
  intro law
  have back := (law (fun _ => none) threeBindings (fun _ => none) _ _
    (run_trace (Setup.step fun _ => none) _ [refusedThenStreaming])).1 (by decide)
  have flag := back.1 "b1"
  revert flag
  decide

end Braidcast.Schedule
