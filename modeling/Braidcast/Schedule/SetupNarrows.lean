import Braidcast.Schedule.SetupRestore
import Mathlib.Data.List.Induction

/-!
# An application only narrows

`Apply` and `ApplyRouting` from any state the setup gets into, with the routing and the bags edited
by anyone between its calls.
-/
namespace Braidcast.Schedule

open Braidcast.Lib (Json Fields Moment Run run_trace)

/-- A call of the setup, or an edit of what it works on. -/
inductive SetupEvent where
  | call (c : SetupCall)
  | edited (routing : Routing) (metadata : String → Option Fields)

def Setup.next (parseJson : String → Option Json) (s : Setup) : SetupEvent → Setup
  | .call c => s.step parseJson c
  | .edited routing metadata => { s with routing, metadata }

/-- Every record is of a binding that was taken off the air, each binding having one. -/
structure Narrowings (s : Setup) : Prop where
  off : ∀ t ∈ s.bindings, t.before = true ∧ t.after = false
  once : (s.bindings.map (·.uuid)).Nodup

/-- Whether the setup has a record of the binding. -/
def Setup.Records (s : Setup) (uuid : String) : Prop := uuid ∈ s.bindings.map (·.uuid)

/-- The bindings the destinations name: of each profile that is named the first that is on. -/
def Named (r : Routing) (destinations : List ScheduleDestination) (uuid : String) : Prop :=
  ∃ d ∈ destinations, d.profileId ≠ "" ∧
    (r.bindings.find? fun b => b.profileId = d.profileId ∧ b.enabled).map (·.uuid) = some uuid

/-- What a call that applies `destinations` to `s` may leave. -/
structure Narrows (a : SetupAnswers) (destinations : List ScheduleDestination) (s : Setup)
    (left : Setup × Option String) : Prop where
  /-- No binding is switched on but one an earlier application took off. -/
  widens : ∀ uuid, s.routing.enabled uuid ≠ some true → left.1.routing.enabled uuid = some true → s.Records uuid
  /-- With nothing outstanding, what is on afterwards is what the destinations name, and was on. -/
  applied : left.2 = none → s.bindings = [] → s.overrides = [] →
    (∀ uuid, left.1.routing.enabled uuid = some true ↔ Named s.routing destinations uuid) ∧
      (∃ uuid, left.1.routing.enabled uuid = some true) ∧
      ∀ uuid, left.1.routing.enabled uuid = some true → s.routing.enabled uuid = some true
  /-- A refused call writes no bag but those it puts back. -/
  unwritten : left.2 ≠ none → ∀ p, left.1.metadata p = s.metadata p ∨
    ∃ o ∈ s.overrides, o.profileId = p ∧ left.1.metadata p = if o.existed then some o.before else none
  /-- A refused call leaves each binding as it was, or puts it back on for an earlier application, or
  keeps the record of one whose restore was refused or put off. -/
  refused : left.2 ≠ none → ∀ uuid, left.1.routing.enabled uuid = s.routing.enabled uuid ∨
    (s.Records uuid ∧ s.routing.enabled uuid = some false ∧ left.1.routing.enabled uuid = some true) ∨
    (left.1.Records uuid ∧ s.routing.enabled uuid = some true ∧ left.1.routing.enabled uuid = some false ∧
      (a.abandoning uuid = .refused ∨ a.streamingAtAbandon = true))

namespace Setup

variable {s : Setup}

/-! ### Reverting -/

/-- What `Revert` makes of a binding: it stays as it was, or is put back on; one that was off is put
back on or keeps its record. -/
structure Reverts (streaming : Bool) (outcome : String → Outcome) (s v : Setup) : Prop where
  narrowings : Narrowings v
  fewer : ∀ uuid, v.Records uuid → s.Records uuid
  routing : ∀ uuid, v.routing.enabled uuid = s.routing.enabled uuid ∨
    s.Records uuid ∧ s.routing.enabled uuid = some false ∧ v.routing.enabled uuid = some true
  kept : ∀ uuid, s.Records uuid → s.routing.enabled uuid = some false → v.routing.enabled uuid = some true ∨
    v.Records uuid ∧ (outcome uuid = .refused ∨ streaming = true)
  overrides : ∀ o ∈ v.overrides, o ∈ s.overrides
  metadata : ∀ p, v.metadata p = s.metadata p ∨
    ∃ o ∈ s.overrides, o.profileId = p ∧ v.metadata p = if o.existed then some o.before else none

theorem restoreOverride_frame (s : Setup) (o : PlannedOverride) :
    (restoreOverride s o).routing = s.routing ∧ (restoreOverride s o).bindings = s.bindings ∧
      ∀ p, (restoreOverride s o).metadata p = s.metadata p ∨
        o.profileId = p ∧ (restoreOverride s o).metadata p = if o.existed then some o.before else none := by
  unfold restoreOverride
  split
  · exact ⟨rfl, rfl, fun _ => .inl rfl⟩
  · refine ⟨rfl, rfl, fun p => ?_⟩
    by_cases here : p = o.profileId
    · right
      simp [writeMetadata, here]
    · left
      simp [writeMetadata, Function.update_of_ne here]

theorem restoreOverrides_frame (overrides : List PlannedOverride) (s : Setup) :
    (overrides.foldl restoreOverride s).routing = s.routing ∧
      ∀ p, (overrides.foldl restoreOverride s).metadata p = s.metadata p ∨
        ∃ o ∈ overrides, o.profileId = p ∧
          (overrides.foldl restoreOverride s).metadata p = if o.existed then some o.before else none := by
  induction overrides generalizing s with
  | nil => exact ⟨rfl, fun _ => .inl rfl⟩
  | cons o overrides ih =>
    obtain ⟨routing, -, own⟩ := restoreOverride_frame s o
    obtain ⟨same, rest⟩ := ih (restoreOverride s o)
    refine ⟨same.trans routing, fun p => ?_⟩
    rw [List.foldl_cons]
    rcases rest p with kept | ⟨c, member, put⟩
    · rcases own p with untouched | ⟨named, put⟩
      · exact .inl (kept.trans untouched)
      · exact .inr ⟨o, by simp, named, kept.trans put⟩
    · exact .inr ⟨c, by simp [member], put⟩

theorem revert_reverts (streaming : Bool) (outcome : String → Outcome) (narrowings : Narrowings s) :
    Reverts streaming outcome s (s.revert streaming outcome) := by
  obtain ⟨off, once⟩ := narrowings
  unfold revert
  split
  next nothing =>
    refine ⟨⟨off, once⟩, fun _ kept => kept, fun _ => .inl rfl, fun uuid recorded => ?_, fun _ held => held,
      fun _ => .inl rfl⟩
    simp [Records, nothing.1] at recorded
  · split
    next streams =>
      exact ⟨⟨off, once⟩, fun _ kept => kept, fun _ => .inl rfl, fun _ recorded _ => .inr ⟨recorded, .inr streams⟩,
        fun _ held => held, fun _ => .inl rfl⟩
    · obtain ⟨routing, refused, same, sub, reason, spec⟩ := restoreBindings_spec (s := s) outcome s.routing once off
        (fun _ _ => rfl)
      obtain ⟨untouched, put⟩ := restoreOverrides_frame s.overrides { s with routing }
      rw [same]
      dsimp only
      refine ⟨⟨fun t member => off t (sub.subset member), once.sublist (sub.map _)⟩,
        fun uuid kept => (sub.map _).subset kept, fun uuid => ?_, fun uuid recorded isOff => ?_,
        fun _ held => (List.not_mem_nil held).elim, put⟩
      · rw [untouched]
        dsimp only
        rw [spec]
        split
        next landed => exact .inr ⟨landed.1, landed.2.2, rfl⟩
        next => exact .inl rfl
      · by_cases kept : uuid ∈ refused.map (·.uuid)
        · obtain ⟨t, member, rfl⟩ := List.mem_map.mp kept
          exact .inr ⟨kept, .inl (reason t member).1⟩
        · left
          rw [untouched]
          dsimp only
          rw [spec, if_pos ⟨recorded, kept, isOff⟩]

/-! ### Narrowing -/

theorem record_ids (uuid : String) (enabled : Bool) (records : List TouchedBinding) :
    (record uuid enabled records).map (·.uuid) =
      if uuid ∈ records.map (·.uuid) then records.map (·.uuid) else records.map (·.uuid) ++ [uuid] := by
  induction records with
  | nil => rfl
  | cons touched rest ih =>
    rw [record]
    by_cases here : touched.uuid = uuid
    · simp [here]
    · rw [if_neg here, List.map_cons, ih]
      simp only [List.map_cons, List.mem_cons, Ne.symm here, false_or]
      split <;> rfl

variable {uuid : String}

theorem record_off {records : List TouchedBinding} (off : ∀ t ∈ records, t.before = true ∧ t.after = false) :
    ∀ t ∈ record uuid false records, t.before = true ∧ t.after = false := by
  induction records with
  | nil =>
    intro t member
    rw [List.mem_singleton.mp member]
    exact ⟨rfl, rfl⟩
  | cons touched rest ih =>
    intro t member
    have first := off touched (by simp)
    rw [record] at member
    split at member
    · rcases List.mem_cons.mp member with rfl | later
      · exact ⟨first.1, rfl⟩
      · exact off t (by simp [later])
    · rcases List.mem_cons.mp member with rfl | later
      · exact first
      · exact ih (fun c old => off c (by simp [old])) t later

theorem narrowings_record (narrowings : Narrowings s) (routing : Routing) (uuid : String) :
    Narrowings { s with routing, bindings := record uuid false s.bindings } where
  off := record_off narrowings.off
  once := by
    dsimp only
    rw [record_ids]
    split
    · exact narrowings.once
    next fresh =>
      rw [List.nodup_append_comm]
      exact List.nodup_cons.mpr ⟨fresh, narrowings.once⟩

/-- What switching bindings off makes of a binding: it stays as it was, or goes off and is recorded. -/
structure SwitchesOff (s v : Setup) : Prop where
  narrowings : Narrowings v
  more : ∀ uuid, s.Records uuid → v.Records uuid
  fewer : ∀ uuid, v.Records uuid → s.Records uuid ∨ s.routing.enabled uuid = some true
  routing : ∀ uuid, v.routing.enabled uuid = s.routing.enabled uuid ∨
    s.routing.enabled uuid = some true ∧ v.routing.enabled uuid = some false ∧ v.Records uuid
  metadata : v.metadata = s.metadata
  overrides : v.overrides = s.overrides

theorem SwitchesOff.refl (narrowings : Narrowings s) : SwitchesOff s s :=
  ⟨narrowings, fun _ recorded => recorded, fun _ recorded => .inl recorded, fun _ => .inl rfl, rfl, rfl⟩

theorem SwitchesOff.trans {u v : Setup} (first : SwitchesOff s u) (next : SwitchesOff u v) : SwitchesOff s v where
  narrowings := next.narrowings
  more uuid recorded := next.more uuid (first.more uuid recorded)
  fewer uuid recorded := by
    rcases next.fewer uuid recorded with old | on
    · exact first.fewer uuid old
    · rcases first.routing uuid with same | ⟨-, off, -⟩
      · exact .inr (same ▸ on)
      · rw [off] at on
        cases on
  routing uuid := by
    rcases next.routing uuid with same | ⟨on, off, recorded⟩
    · rcases first.routing uuid with before | ⟨on, off, recorded⟩
      · exact .inl (same.trans before)
      · exact .inr ⟨on, same.trans off, next.more uuid recorded⟩
    · rcases first.routing uuid with before | ⟨-, already, -⟩
      · exact .inr ⟨before ▸ on, off, recorded⟩
      · rw [already] at on
        cases on
  metadata := next.metadata.trans first.metadata
  overrides := next.overrides.trans first.overrides

/-- A binding that is on is switched off and recorded, or nothing changes. -/
theorem flip_cases (outcome : String → Outcome) (narrowings : Narrowings s) (on : s.routing.enabled uuid = some true) :
    s.flip outcome uuid false = (s, false) ∨
      ((s.flip outcome uuid false).2 = true ∧ SwitchesOff s (s.flip outcome uuid false).1 ∧
        (s.flip outcome uuid false).1.routing = s.routing.setEnabled uuid false) := by
  simp only [flip]
  rcases writeLanded_cases s outcome uuid false on with landed | ⟨-, refused⟩
  · right
    simp only [landed, if_true]
    have here : uuid ∈ (record uuid false s.bindings).map (·.uuid) := by
      rw [record_ids]
      split
      next old => exact old
      · simp
    refine ⟨trivial, ⟨narrowings_record narrowings _ uuid, fun other recorded => ?_, fun other recorded => ?_,
      fun other => ?_, rfl, rfl⟩, trivial⟩
    · simp only [Records, record_ids]
      split
      · exact recorded
      · exact List.mem_append_left _ recorded
    · simp only [Records, record_ids] at recorded
      split at recorded
      · exact .inl recorded
      · rcases List.mem_append.mp recorded with old | new
        · exact .inl old
        · rw [List.mem_singleton.mp new]
          exact .inr on
    · rw [Routing.enabled_setEnabled]
      by_cases same : other = uuid
      · subst same
        rw [if_pos rfl, on]
        exact .inr ⟨rfl, rfl, here⟩
      · rw [if_neg same]
        exact .inl rfl
  · left
    simp [refused]

theorem narrowFrom_switchesOff (outcome : String → Outcome) (wanted : List String) {rest : List RoutingBinding}
    (nodup : (rest.map (·.uuid)).Nodup) (agrees : ∀ b ∈ rest, s.routing.enabled b.uuid = some b.enabled)
    (narrowings : Narrowings s) :
    SwitchesOff s (narrowFrom outcome wanted rest s).1 ∧
      ((narrowFrom outcome wanted rest s).2 = true → ∀ uuid,
        (narrowFrom outcome wanted rest s).1.routing.enabled uuid =
          if uuid ∈ rest.map (·.uuid) ∧ uuid ∉ wanted then (s.routing.enabled uuid).map fun _ => false
          else s.routing.enabled uuid) := by
  induction rest generalizing s with
  | nil => exact ⟨.refl narrowings, fun _ uuid => by simp [narrowFrom]⟩
  | cons b rest ih =>
    obtain ⟨fresh, nodup⟩ := List.nodup_cons.mp nodup
    have later : ∀ c ∈ rest, s.routing.enabled c.uuid = some c.enabled :=
      fun c member => agrees c (by simp [member])
    have first := agrees b (by simp)
    rw [narrowFrom]
    split
    next unwanted =>
      have on : s.routing.enabled b.uuid = some true := unwanted.1 ▸ first
      rcases flip_cases outcome narrowings on with refused | ⟨landed, off, routing⟩
      · simp only [refused, Bool.false_eq_true, if_false]
        exact ⟨.refl narrowings, fun complete => by cases complete⟩
      · simp only [landed, if_true]
        have agrees' : ∀ c ∈ rest, (s.flip outcome b.uuid false).1.routing.enabled c.uuid = some c.enabled := by
          intro c member
          rw [routing, Routing.enabled_setEnabled, if_neg fun same => fresh (List.mem_map.mpr ⟨c, member, same⟩)]
          exact later c member
        obtain ⟨rest_off, spec⟩ := ih nodup agrees' off.narrowings
        refine ⟨off.trans rest_off, fun complete uuid => ?_⟩
        rw [spec complete, routing, Routing.enabled_setEnabled]
        by_cases here : uuid = b.uuid
        · subst here
          rw [if_neg fun both => fresh both.1, if_pos rfl, if_pos ⟨by simp, unwanted.2⟩]
        · simp [here]
    next keeps =>
      obtain ⟨rest_off, spec⟩ := ih nodup later narrowings
      refine ⟨rest_off, fun complete uuid => ?_⟩
      rw [spec complete]
      by_cases here : uuid = b.uuid
      · subst here
        rw [if_neg fun both => fresh both.1, first]
        split
        next unwanted =>
          -- it is unwanted and was left alone, so it was off already
          have off : b.enabled = false := by
            cases enabled : b.enabled with
            | false => rfl
            | true => exact absurd ⟨enabled, unwanted.2⟩ keeps
          rw [off]
          rfl
        · rfl
      · simp [here]

/-! ### Applying -/

theorem mem_wanted {before : List RoutingBinding} {destinations : List ScheduleDestination} :
    uuid ∈ wanted before destinations ↔ ∃ d ∈ destinations, d.profileId ≠ "" ∧
      (before.find? fun b => b.profileId = d.profileId ∧ b.enabled).map (·.uuid) = some uuid := by
  induction destinations using List.reverseRecOn with
  | nil => simp [wanted]
  | append_singleton destinations d ih =>
    rw [wanted, List.foldl_append, ← wanted, List.foldl_cons, List.foldl_nil]
    by_cases unnamed : d.profileId = ""
    · rw [if_pos unnamed, ih]
      simp [unnamed, or_and_right, exists_or]
    · rw [if_neg unnamed]
      cases found : before.find? fun b => b.profileId = d.profileId ∧ b.enabled with
      | none =>
        rw [ih]
        simp only [List.mem_append, List.mem_singleton, or_and_right, exists_or, exists_eq_left, found]
        simp
      | some b =>
        simp only [List.mem_append, List.mem_singleton, or_and_right, exists_or, exists_eq_left, found, ← ih]
        split
        next twice =>
          simp only [Option.map_some, Option.some.injEq]
          constructor
          · exact .inl
          · rintro (old | ⟨-, rfl⟩)
            · exact old
            · exact twice
        · simp [unnamed, eq_comm]

theorem on_of_named {r : Routing} {destinations : List ScheduleDestination}
    (named : Named r destinations uuid) : r.enabled uuid = some true := by
  obtain ⟨d, -, -, first⟩ := named
  obtain ⟨b, found, rfl⟩ := Option.map_eq_some_iff.mp first
  have on := List.find?_some found
  rw [Routing.enabled_of_mem (List.mem_of_find?_eq_some found)]
  simp only [decide_eq_true_eq] at on
  rw [on.2]

theorem mem_ids_of_enabled {r : Routing} {enabled : Bool} (known : r.enabled uuid = some enabled) :
    uuid ∈ r.bindings.map (·.uuid) := by
  obtain ⟨b, found, -⟩ := Option.map_eq_some_iff.mp known
  exact List.mem_map.mpr ⟨b, List.mem_of_find?_eq_some found, by simpa using List.find?_some found⟩

/-- What the narrowing leaves of the routing: with nothing refused, what is named; or what it
switched off is put back on, or kept. -/
theorem narrowRouting_cases (a : SetupAnswers) (destinations : List ScheduleDestination) (narrowings : Narrowings s) :
    ((s.narrowRouting a destinations).2 = none ∧ SwitchesOff s (s.narrowRouting a destinations).1 ∧
        (∃ uuid, Named s.routing destinations uuid) ∧ ∀ uuid,
          (s.narrowRouting a destinations).1.routing.enabled uuid = some true ↔ Named s.routing destinations uuid) ∨
      ((s.narrowRouting a destinations).2 ≠ none ∧ ∃ u, SwitchesOff s u ∧
        Reverts a.streamingAtAbandon a.abandoning u (s.narrowRouting a destinations).1) ∨
      (s.narrowRouting a destinations).2 ≠ none ∧ (s.narrowRouting a destinations).1 = s := by
  obtain ⟨off, complete⟩ := narrowFrom_switchesOff a.narrowing (wanted s.routing.bindings destinations)
    s.routing.nodup (fun b member => Routing.enabled_of_mem member) narrowings
  unfold narrowRouting
  dsimp only
  split
  · exact .inr (.inr ⟨by simp, rfl⟩)
  next some_ =>
    split
    next landed =>
      refine .inl ⟨rfl, off, ?_, fun uuid => ?_⟩
      · obtain ⟨uuid, member⟩ := List.exists_mem_of_ne_nil _ some_
        exact ⟨uuid, mem_wanted.mp member⟩
      · dsimp only
        rw [complete landed]
        constructor
        · intro on
          split at on
          · cases known : s.routing.enabled uuid with
            | none | some => simp [known] at on
          next spared =>
            exact mem_wanted.mp (by_contra fun unwanted => spared ⟨mem_ids_of_enabled on, unwanted⟩)
        · intro named
          rw [if_neg fun both => both.2 (mem_wanted.mpr named)]
          exact on_of_named named
    · exact .inr (.inl ⟨by simp, _, off, revert_reverts a.streamingAtAbandon a.abandoning off.narrowings⟩)

theorem Reverts.back {streaming : Bool} {outcome : String → Outcome} {v : Setup}
    (reverts : Reverts streaming outcome s v) (now : v.Records uuid ∨ v.routing.enabled uuid = some true) :
    s.Records uuid ∨ s.routing.enabled uuid = some true := by
  rcases now with recorded | on
  · exact .inl (reverts.fewer uuid recorded)
  · rcases reverts.routing uuid with same | ⟨recorded, -, -⟩
    · exact .inr (same ▸ on)
    · exact .inl recorded

theorem SwitchesOff.back {v : Setup} (off : SwitchesOff s v) (now : v.Records uuid ∨ v.routing.enabled uuid = some true) :
    s.Records uuid ∨ s.routing.enabled uuid = some true := by
  rcases now with recorded | on
  · exact off.fewer uuid recorded
  · rcases off.routing uuid with same | ⟨on, -, -⟩
    · exact .inr (same ▸ on)
    · exact .inr on

/-- The restore of an abandoned narrowing puts back what it switched off, or keeps it. -/
theorem abandoned {streaming : Bool} {outcome : String → Outcome} {u v : Setup} (off : SwitchesOff s u)
    (reverts : Reverts streaming outcome u v) (uuid : String) :
    v.routing.enabled uuid = s.routing.enabled uuid ∨
      (s.Records uuid ∧ s.routing.enabled uuid = some false ∧ v.routing.enabled uuid = some true) ∨
      (v.Records uuid ∧ s.routing.enabled uuid = some true ∧ v.routing.enabled uuid = some false ∧
        (outcome uuid = .refused ∨ streaming = true)) := by
  rcases off.routing uuid with same | ⟨on, isOff, recorded⟩
  · rcases reverts.routing uuid with kept | ⟨recorded, isOff, on⟩
    · exact .inl (kept.trans same)
    · -- it was off before the narrowing too, so an earlier application had it
      have before := same ▸ isOff
      rcases off.fewer uuid recorded with old | on'
      · exact .inr (.inl ⟨old, before, on⟩)
      · rw [before] at on'
        cases on'
  · rcases reverts.kept uuid recorded isOff with back | ⟨kept, why⟩
    · exact .inl (back.trans on.symm)
    · rcases reverts.routing uuid with still | ⟨-, -, back⟩
      · exact .inr (.inr ⟨kept, on, still.trans isOff, why⟩)
      · exact .inl (back.trans on.symm)

/-- What both calls do to the routing: the `Revert` they open with, and the narrowing. -/
theorem narrows_of_narrowRouting (a : SetupAnswers) (destinations : List ScheduleDestination)
    (narrowings : Narrowings s) {left : Setup × Option String}
    (routing : left.1.routing = ((s.revert a.streamingAtOpening a.opening).narrowRouting a destinations).1.routing)
    (same : left.2 = none → ((s.revert a.streamingAtOpening a.opening).narrowRouting a destinations).2 = none)
    (failed : left.2 ≠ none → left = (s.revert a.streamingAtOpening a.opening).narrowRouting a destinations) :
    Narrows a destinations s left := by
  have opened := revert_reverts a.streamingAtOpening a.opening narrowings
  have ends := narrowRouting_cases a destinations opened.narrowings
  constructor
  · intro uuid notOn on
    rw [routing] at on
    have before : (s.revert a.streamingAtOpening a.opening).Records uuid ∨
        (s.revert a.streamingAtOpening a.opening).routing.enabled uuid = some true := by
      rcases ends with ⟨-, off, -⟩ | ⟨-, u, off, reverts⟩ | ⟨-, still⟩
      · exact off.back (.inr on)
      · exact off.back (reverts.back (.inr on))
      · exact .inr (still ▸ on)
    exact (opened.back before).resolve_right notOn
  · intro accepted clean bare
    have unchanged : (s.revert a.streamingAtOpening a.opening).routing = s.routing := by
      rw [revert, if_pos ⟨clean, bare⟩]
    rcases ends with ⟨-, -, ⟨first, named⟩, spec⟩ | ⟨failed, -⟩ | ⟨failed, -⟩
    · rw [routing]
      rw [unchanged] at named
      simp only [unchanged] at spec
      exact ⟨spec, ⟨first, (spec first).mpr named⟩, fun uuid on => on_of_named ((spec uuid).mp on)⟩
    · exact absurd (same accepted) failed
    · exact absurd (same accepted) failed
  · intro refused p
    obtain rfl := failed refused
    rcases ends with ⟨accepted, -⟩ | ⟨-, u, off, reverts⟩ | ⟨-, still⟩
    · exact absurd accepted refused
    · rcases reverts.metadata p with kept | ⟨o, member, named, put⟩
      · rw [kept, off.metadata]
        exact opened.metadata p
      · rw [off.overrides] at member
        exact .inr ⟨o, opened.overrides o member, named, put⟩
    · rw [still]
      exact opened.metadata p
  · intro refused uuid
    obtain rfl := failed refused
    have left_ : ∀ {v : Setup}, (v.routing.enabled uuid = (s.revert a.streamingAtOpening a.opening).routing.enabled uuid) →
        v.routing.enabled uuid = s.routing.enabled uuid ∨
          (s.Records uuid ∧ s.routing.enabled uuid = some false ∧ v.routing.enabled uuid = some true) := by
      intro v kept
      rw [kept]
      exact opened.routing uuid
    rcases ends with ⟨accepted, -⟩ | ⟨-, u, off, reverts⟩ | ⟨-, still⟩
    · exact absurd accepted refused
    · rcases abandoned off reverts uuid with kept | ⟨recorded, isOff, on⟩ | ⟨recorded, on, isOff, why⟩
      · exact (left_ kept).imp_right .inl
      · rcases opened.routing uuid with same | ⟨-, -, back⟩
        · exact .inr (.inl ⟨opened.fewer uuid recorded, same ▸ isOff, on⟩)
        · rw [isOff] at back
          cases back
      · rcases opened.routing uuid with same | ⟨-, wasOff, -⟩
        · exact .inr (.inr ⟨recorded, same ▸ on, isOff, why⟩)
        · exact .inl (isOff.trans wasOff.symm)
    · rw [still]
      exact (left_ rfl).imp_right .inl

theorem streaming_narrows (a : SetupAnswers) (destinations : List ScheduleDestination) (error : String) :
    Narrows a destinations s (s, some error) :=
  ⟨fun _ off on => absurd on off, by simp, fun _ _ => .inl rfl, fun _ _ => .inl rfl⟩

theorem applyRouting_narrows (a : SetupAnswers) (destinations : List ScheduleDestination)
    (narrowings : Narrowings s) : Narrows a destinations s (s.applyRouting a destinations) := by
  unfold applyRouting
  split
  · exact streaming_narrows a destinations _
  · dsimp only
    split
    next refused =>
      exact narrows_of_narrowRouting a destinations narrowings rfl (fun accepted => accepted) fun _ => rfl
    next accepted =>
      exact narrows_of_narrowRouting a destinations narrowings rfl (fun _ => by simpa using accepted)
        fun failed => absurd rfl failed

theorem foldl_writeMetadata_frame (planned : List PlannedOverride) (s : Setup) :
    (planned.foldl (fun s planned => s.writeMetadata planned.profileId (some planned.after)) s).routing = s.routing ∧
      (planned.foldl (fun s planned => s.writeMetadata planned.profileId (some planned.after)) s).bindings =
        s.bindings := by
  induction planned generalizing s with
  | nil => exact ⟨rfl, rfl⟩
  | cons o planned ih =>
    rw [List.foldl_cons]
    exact ih _

theorem apply_narrows (parseJson : String → Option Json) (a : SetupAnswers) (destinations : List ScheduleDestination)
    (narrowings : Narrowings s) : Narrows a destinations s (s.apply parseJson a destinations) := by
  unfold apply
  split
  · exact streaming_narrows a destinations _
  · dsimp only
    split
    next refused =>
      exact narrows_of_narrowRouting a destinations narrowings rfl (fun accepted => accepted) fun _ => rfl
    next accepted =>
      exact narrows_of_narrowRouting a destinations narrowings (foldl_writeMetadata_frame _ _).1
        (fun _ => by simpa using accepted) fun failed => absurd rfl failed

/-! ### Whole runs -/

theorem narrowRouting_narrowings (a : SetupAnswers) (destinations : List ScheduleDestination)
    (narrowings : Narrowings s) : Narrowings (s.narrowRouting a destinations).1 := by
  rcases narrowRouting_cases a destinations narrowings with ⟨-, off, -⟩ | ⟨-, u, -, reverts⟩ | ⟨-, same⟩
  · exact off.narrowings
  · exact reverts.narrowings
  · rw [same]
    exact narrowings

theorem narrowings_congr {v : Setup} (same : v.bindings = s.bindings) (narrowings : Narrowings s) : Narrowings v :=
  ⟨same ▸ narrowings.off, same ▸ narrowings.once⟩

theorem next_narrowings (parseJson : String → Option Json) (event : SetupEvent) (narrowings : Narrowings s) :
    Narrowings (s.next parseJson event) := by
  have opened := fun a : SetupAnswers => (revert_reverts a.streamingAtOpening a.opening narrowings).narrowings
  cases event with
  | edited => exact ⟨narrowings.off, narrowings.once⟩
  | call c =>
    cases c with
    | revert streaming outcome => exact (revert_reverts streaming outcome narrowings).narrowings
    | applyRouting a destinations =>
      have narrowed := narrowRouting_narrowings a destinations (opened a)
      simp only [next, step, applyRouting]
      split
      · exact narrowings
      · split
        · exact narrowed
        · exact ⟨narrowed.off, narrowed.once⟩
    | apply a destinations =>
      have narrowed := narrowRouting_narrowings a destinations (opened a)
      simp only [next, step, apply]
      split
      · exact narrowings
      · split
        · exact narrowed
        · exact narrowings_congr (foldl_writeMetadata_frame _ _).2 ⟨narrowed.off, narrowed.once⟩

end Setup

/-- In every state the setup gets into, what it applies only narrows, and what it refuses it leaves as
it was, keeping the record of any binding not put back. -/
theorem applications_narrow (parseJson : String → Option Json) {routing : Routing} {metadata : String → Option Fields}
    {ms : List (Moment Setup SetupEvent)} {s : Setup}
    (run : Run (fun s event t => s.next parseJson event = t) { routing, metadata } ms s) (a : SetupAnswers)
    (destinations : List ScheduleDestination) :
    Narrows a destinations s (s.apply parseJson a destinations) ∧
      Narrows a destinations s (s.applyRouting a destinations) := by
  have narrowings : Narrowings s := by
    refine run.always (P := Narrowings) ?_ ⟨by simp, .nil⟩
    rintro s event _ rfl held
    exact Setup.next_narrowings parseJson event held
  exact ⟨Setup.apply_narrows parseJson a destinations narrowings, Setup.applyRouting_narrows a destinations narrowings⟩

/-- The second of two bindings to switch off is refused. -/
def secondRefused : SetupAnswers := { narrowing := fun uuid => if uuid = "b2" then .refused else .accepted }

/-- The first is back on. -/
theorem applications_narrow_second :
    let s : Setup := { routing := threeBindings, metadata := fun _ => none }
    (s.applyRouting secondRefused [{ profileId := "p3" }]).2 ≠ none ∧
      (s.applyRouting secondRefused [{ profileId := "p3" }]).1.routing.enabled "b1" = some true := by
  intro s
  have narrows := (applications_narrow (fun _ => none) (run_trace (Setup.next fun _ => none) s []) secondRefused
    [{ profileId := "p3" }]).2
  have refused : (s.applyRouting secondRefused [{ profileId := "p3" }]).2 ≠ none := by decide
  refine ⟨refused, ?_⟩
  rcases narrows.refused refused "b1" with same | ⟨recorded, -⟩ | ⟨-, -, -, refused | streams⟩
  · exact same
  · simp [Setup.Records, s] at recorded
  · cases refused
  · cases streams

/-- One application took the first two bindings off; the next names nothing. -/
def appliedOnce : List SetupEvent := [.call (.applyRouting {} [{ profileId := "p3" }])]

/-- A call that is refused has put back what an earlier application took off. -/
theorem refused_puts_back :
    ¬∀ (parseJson : String → Option Json) (routing : Routing) (metadata : String → Option Fields)
      (ms : List (Moment Setup SetupEvent)) (s : Setup),
      Run (fun s event t => s.next parseJson event = t) { routing, metadata } ms s →
      ∀ (a : SetupAnswers) (destinations : List ScheduleDestination), (s.applyRouting a destinations).2 ≠ none →
        ∀ uuid, (s.applyRouting a destinations).1.routing.enabled uuid = s.routing.enabled uuid ∨
          ((s.applyRouting a destinations).1.Records uuid ∧ a.abandoning uuid = .refused) := by
  intro law
  have same := law (fun _ => none) threeBindings (fun _ => none) _ _
    (run_trace (Setup.next fun _ => none) _ appliedOnce) {} [] (by decide) "b1"
  rcases same with same | ⟨-, refused⟩
  · revert same
    decide
  · cases refused

end Braidcast.Schedule
