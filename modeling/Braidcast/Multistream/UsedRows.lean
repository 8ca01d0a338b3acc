import Braidcast.Multistream.StreamInfoPresets
import Braidcast.Multistream.PollTemplates

/-!
# What the histories keep

Under any clock the row just used is first, and the rows stay ordered and capped. Two unnamed
presets of one identity arise where a named one loses its name while an unnamed one has its
identity, and in no other way.
-/
namespace Braidcast.Multistream

open Lib OAuth MruRows

namespace StreamInfoPresets

section

variable {parseJson : String → Option Json} {presets : List Preset} {preset other : Preset} {incoming : Incoming}

/-! ### As a history -/

/-- The preset that is remembered: the one it matches with the incoming sheet, or a fresh one. -/
def remembered (presets : List Preset) (incoming : Incoming) : Preset :=
  match (hit presets incoming).bind fun p => presets.find? p with
  | some preset => { preset with
      lastUsedAtMs := usedNowMs presets incoming.now
      data := { preset.data with shared := incoming.shared, byProvider := incoming.byProvider } }
  | none => {
      id := incoming.newId
      lastUsedAtMs := usedNowMs presets incoming.now
      data := { createdAtMs := incoming.createdNow.ms, shared := incoming.shared, byProvider := incoming.byProvider } }

/-- The preset that a call uses, and when. -/
def event (m : Moment (List Preset) Input) : Recent.Event Preset :=
  match m.input with
  | .load _ _ => .load
  | .remember incoming => .use (remembered m.before incoming) incoming.now.ms
  | .touch id now => touchEvent m.before id now
  | .rename _ _ => .quiet
  | .remove _ => .quiet

variable {p : Preset → Bool}

/-- A match is one of the rows. -/
theorem find?_of_hit (matched : hit presets incoming = some p) : ∃ preset, presets.find? p = some preset := by
  unfold hit at matched
  split at matched
  · next exact_ =>
    cases matched
    exact Option.isSome_iff_exists.mp (by rwa [List.find?_isSome, ← List.any_eq_true])
  · split at matched
    · next legacy =>
      cases matched
      exact Option.isSome_iff_exists.mp (by rwa [List.find?_isSome, ← List.any_eq_true])
    · cases matched

theorem mergeDuplicates_sublist (seen : List String) (presets : List Preset) :
    (mergeDuplicates seen presets).Sublist presets := by
  induction presets generalizing seen with
  | nil => exact .slnil
  | cons preset rest ih =>
    unfold mergeDuplicates
    split
    · exact (ih _).cons_cons _
    · exact (ih _).cons _

theorem readPreset_small {now : Clock} {item : Json} (read : readPreset parseJson now item = some preset) :
    preset.lastUsedAtMs ≤ kMaxStampMs := by
  unfold readPreset at read
  split at read
  · split at read
    · cases read
    · split at read
      · cases read
        exact readTimestamp_le ..
      · cases read
  · cases read

theorem load_step (parseJson : String → Option Json) (root : Json) (now : Clock) :
    MruRows.Step kMaxPresets presets .load (load parseJson root now) := by
  unfold load
  split
  · refine .load (fun row member => ?_) (mergeDuplicates_sublist _ _)
    obtain ⟨item, -, read⟩ := List.mem_filterMap.mp member
    exact readPreset_small read
  · have none_ : ∀ row ∈ ([] : List Preset), row.lastUsedAtMs ≤ kMaxStampMs := fun _ absent => nomatch absent
    exact .load none_ (List.nil_sublist _)

theorem remember_of_hit (matched : hit presets incoming = some p) :
    remember presets incoming = (markUsed presets kMaxPresets p
        (fun sheet => { sheet with shared := incoming.shared, byProvider := incoming.byProvider }) incoming.now,
      ((presets.find? p).map (·.id)).getD "", false) := by
  rw [remember, matched]

theorem remembered_of_hit (matched : hit presets incoming = some p) (found : presets.find? p = some preset) :
    remembered presets incoming = { preset with
      lastUsedAtMs := usedNowMs presets incoming.now
      data := { preset.data with shared := incoming.shared, byProvider := incoming.byProvider } } := by
  rw [remembered, matched, Option.bind_some, found]

theorem remember_of_fresh (fresh : hit presets incoming = none) :
    (remember presets incoming).1 = addUsed presets kMaxPresets incoming.newId
      { createdAtMs := incoming.createdNow.ms, shared := incoming.shared, byProvider := incoming.byProvider } incoming.now := by
  rw [remember, fresh]

theorem remembered_of_fresh (fresh : hit presets incoming = none) : remembered presets incoming = {
    id := incoming.newId
    lastUsedAtMs := usedNowMs presets incoming.now
    data := { createdAtMs := incoming.createdNow.ms, shared := incoming.shared, byProvider := incoming.byProvider } } := by
  rw [remembered, fresh, Option.bind_none]

theorem remember_step (presets : List Preset) (incoming : Incoming) :
    MruRows.Step kMaxPresets presets (.use (remembered presets incoming) incoming.now.ms) (remember presets incoming).1 := by
  cases matched : hit presets incoming with
  | some p =>
    obtain ⟨preset, found⟩ := find?_of_hit matched
    rw [remembered_of_hit matched found, remember_of_hit matched]
    exact markUsed_step found kMaxPresets
      (fun sheet => { sheet with shared := incoming.shared, byProvider := incoming.byProvider }) incoming.now
  | none =>
    rw [remembered_of_fresh matched, remember_of_fresh matched]
    exact addUsed_step ..

theorem step_simulates (m : Moment (List Preset) Input) (step : Step parseJson m.before m.input m.after) :
    MruRows.Step kMaxPresets m.before (event m) m.after := by
  obtain ⟨before, input, after⟩ := m
  obtain rfl : StreamInfoPresets.step parseJson before input = after := step
  cases input with
  | load root now => exact load_step parseJson root now
  | remember incoming => exact remember_step before incoming
  | touch id now => exact touch_step ..
  | rename id name => exact rename_step ..
  | remove id => exact remove_step ..

/-- A sheet is remembered under the id that is returned. -/
theorem remembered_id (kept : Recent.Kept stampOf kMaxPresets presets) (incoming : Incoming) :
    (remembered presets incoming).id = (remember presets incoming).2.1 := by
  have first := (remember_step presets incoming).first kept (by decide)
  cases matched : hit presets incoming with
  | some p =>
    obtain ⟨preset, found⟩ := find?_of_hit matched
    rw [remembered_of_hit matched found, remember_of_hit matched, found]
    rfl
  | none =>
    -- the fresh row is first, and so the store holds it
    rw [remember_of_fresh matched] at first
    have there : (findById (addUsed presets kMaxPresets incoming.newId
        { createdAtMs := incoming.createdNow.ms, shared := incoming.shared, byProvider := incoming.byProvider } incoming.now)
        incoming.newId).isSome = true := by
      rw [findById, List.find?_isSome]
      exact ⟨_, List.mem_of_head? first, by rw [remembered_of_fresh matched]; exact decide_eq_true rfl⟩
    rw [remembered_of_fresh matched, remember, matched]
    simp only [there, if_true]

/-! ### Identities -/

/-- No two unnamed presets have the same identity. -/
def Apart (preset other : Preset) : Prop :=
  preset.data.name = "" → other.data.name = "" → identity preset ≠ identity other

instance (preset other : Preset) : Decidable (Apart preset other) := inferInstanceAs (Decidable (_ → _ → _))

def Distinct (presets : List Preset) : Prop := presets.Pairwise Apart

instance (presets : List Preset) : Decidable (Distinct presets) := inferInstanceAs (Decidable (presets.Pairwise Apart))

theorem apart_symm : ∀ {preset other : Preset}, Apart preset other → Apart other preset :=
  fun apart unnamed unnamed' => (apart unnamed' unnamed).symm

theorem distinct_normalize (distinct : Distinct presets) (cap : Nat) : Distinct (normalize presets cap) := by
  obtain ⟨sorted, perm, part⟩ := Recent.newest_prefix stampOf cap presets
  have all : sorted.Pairwise Apart := (perm.pairwise_iff apart_symm).mpr distinct
  rw [normalize_eq]
  exact all.sublist part.sublist

theorem mergeDuplicates_distinct (seen : List String) (presets : List Preset) :
    Distinct (mergeDuplicates seen presets) ∧
      ∀ preset ∈ mergeDuplicates seen presets, preset.data.name = "" → identity preset ∉ seen := by
  induction presets generalizing seen with
  | nil => exact ⟨.nil, fun _ absent => nomatch absent⟩
  | cons first rest ih =>
    unfold mergeDuplicates
    split
    · next kept =>
      obtain ⟨distinct, new⟩ := ih (identity first :: seen)
      refine ⟨List.pairwise_cons.mpr ⟨fun other member _ unnamed same => ?_, distinct⟩, fun preset member unnamed => ?_⟩
      · exact new other member unnamed (same ▸ List.mem_cons_self)
      · rcases List.mem_cons.mp member with rfl | later
        · exact kept.resolve_left (not_not_intro unnamed)
        · exact fun there => new preset later unnamed (List.mem_cons_of_mem _ there)
    · exact ih seen

/-- A preset takes the place of another that it is told from no less. -/
theorem distinct_modifyFirst {f : Preset → Preset} (distinct : Distinct presets) (found : presets.find? p = some preset)
    (apart : ∀ other ∈ presets, Apart preset other → Apart (f preset) other) : Distinct (modifyFirst p f presets) := by
  obtain ⟨before, after, rfl, changed⟩ := modifyFirst_split f found
  rw [changed]
  unfold Distinct at distinct ⊢
  rw [List.pairwise_middle apart_symm, List.pairwise_cons] at distinct ⊢
  refine ⟨fun other there => apart other ?_ (distinct.1 other there), distinct.2⟩
  rcases List.mem_append.mp there with first | later
  · exact List.mem_append_left _ first
  · exact List.mem_append_right _ (List.mem_cons_of_mem _ later)

theorem load_distinct (parseJson : String → Option Json) (root : Json) (now : Clock) :
    Distinct (load parseJson root now) := by
  unfold load
  split
  · exact (mergeDuplicates_distinct [] _).1
  · exact .nil

section

variable (distinct : Distinct presets)
include distinct

theorem remember_distinct (incoming : Incoming) :
    Distinct (remember presets incoming).1 := by
  cases matched : hit presets incoming with
  | some p =>
    obtain ⟨preset, found⟩ := find?_of_hit matched
    rw [remember_of_hit matched]
    refine distinct_normalize (distinct_modifyFirst distinct found fun other member apart unnamed unnamed' => ?_) _
    unfold hit at matched
    split at matched
    · -- the preset keeps its identity
      cases matched
      have same : identity preset = presetIdentity incoming.shared incoming.byProvider := by
        simpa [matchesExactly] using List.find?_some found
      have told := apart unnamed unnamed'
      rw [same] at told
      exact told
    · -- no preset has the identity of the incoming sheet
      next exact_ =>
      have other_ : identity other ≠ presetIdentity incoming.shared incoming.byProvider := by
        intro same
        exact exact_ (List.any_eq_true.mpr ⟨other, member, decide_eq_true same⟩)
      exact other_.symm
  | none =>
    rw [remember_of_fresh matched]
    refine distinct_normalize ?_ _
    unfold hit at matched
    split at matched
    · cases matched
    · next exact_ =>
      refine List.pairwise_append.mpr ⟨distinct, List.pairwise_singleton .., fun other member fresh new _ _ same => ?_⟩
      refine exact_ (List.any_eq_true.mpr ⟨other, member, decide_eq_true ?_⟩)
      rw [same, List.mem_singleton.mp new]
      rfl

theorem touch_distinct (id : String) (now : Clock) :
    Distinct ((touch presets kMaxPresets id now).getD presets) := by
  cases found : findById presets id with
  | none =>
    rw [touch, found]
    exact distinct
  | some preset =>
    rw [touch, found]
    exact distinct_normalize (distinct_modifyFirst distinct found fun other _ apart => apart) _

/-- The call takes the name from a preset while an unnamed one has its identity. -/
def Unnames (presets : List Preset) (i : Input) : Prop :=
  ∃ id preset, i = .rename id "" ∧ findById presets id = some preset ∧ preset.data.name ≠ "" ∧
    ∃ other ∈ presets, other.data.name = "" ∧ identity other = identity preset

theorem rename_distinct (id name : String) (keeps : ¬Unnames presets (.rename id name)) :
    Distinct ((rename presets (setName name) id).getD presets) := by
  cases found : findById presets id with
  | none =>
    rw [rename, found]
    exact distinct
  | some preset =>
    rw [rename, found]
    refine distinct_modifyFirst distinct found fun other member apart unnamed unnamed' => ?_
    by_cases was : preset.data.name = ""
    · exact apart was unnamed'
    · have empty : name = "" := unnamed
      subst empty
      exact fun same => keeps ⟨id, preset, rfl, found, was, other, member, unnamed', same.symm⟩

theorem remove_distinct (id : String) : Distinct ((remove presets id).getD presets) := by
  cases found : findById presets id with
  | none =>
    rw [remove, found]
    exact distinct
  | some preset =>
    rw [remove, found]
    exact distinct.sublist List.eraseP_sublist

theorem step_distinct {i : Input} (keeps : ¬Unnames presets i) :
    Distinct (StreamInfoPresets.step parseJson presets i) := by
  cases i with
  | load root now => exact load_distinct parseJson root now
  | remember incoming => exact remember_distinct distinct incoming
  | touch id now => exact touch_distinct distinct id now
  | rename id name => exact rename_distinct distinct id name keeps
  | remove id => exact remove_distinct distinct id

end

end

/-! ### Over a run -/

/-- What the claim of a moment is about: order, cap, and the preset just remembered or touched. -/
structure Placed (m : Moment (List Preset) Input) : Prop where
  ordered : m.after.Pairwise fun a b => b.lastUsedAtMs ≤ a.lastUsedAtMs
  capped : m.after.length ≤ kMaxPresets
  /-- The sheet remembered is first, under the id that is returned. -/
  remembered : ∀ incoming, m.input = .remember incoming → ∃ preset, m.after.head? = some preset ∧
    preset.id = (remember m.before incoming).2.1 ∧ preset.data.shared = incoming.shared ∧
      preset.data.byProvider = incoming.byProvider
  /-- The preset touched is first. -/
  touched : ∀ id now preset, m.input = .touch id now → findById m.before id = some preset →
    ∃ first, m.after.head? = some first ∧ first.id = id ∧ first.data = preset.data

def asHistory (m : Moment (List Preset) Input) : Moment (List Preset) (Recent.Event Preset) := ⟨m.before, event m, m.after⟩

/-- The stamp that the call takes, if it takes one, is computed in range. -/
def Fits (m : Moment (List Preset) Input) : Prop := MruRows.Fits (asHistory m)

/-- How many calls of a run take a stamp. -/
def uses (ms : List (Moment (List Preset) Input)) : Nat := Recent.uses (ms.map asHistory)

section

variable {parseJson : String → Option Json} {presets : List Preset} {ms : List (Moment (List Preset) Input)}

theorem placed_run (run : Run (Step parseJson) [] ms presets) : ∀ m ∈ ms, Placed m := by
  intro m member
  have history := run.relabel step_simulates
  have placed := MruRows.placed_run history (by decide) _ (List.mem_map_of_mem member)
  obtain ⟨kept, -⟩ := Recent.kept_run history ⟨.nil, Nat.zero_le _⟩ _ (List.mem_map_of_mem member)
  refine ⟨placed.ordered, placed.capped, fun incoming called => ?_, fun id now preset called found => ?_⟩
  · have used : event m = .use (StreamInfoPresets.remembered m.before incoming) incoming.now.ms := by rw [event, called]
    refine ⟨_, placed.first _ _ used, remembered_id kept incoming, ?_⟩
    cases matched : hit m.before incoming with
    | some p =>
      obtain ⟨preset, found⟩ := find?_of_hit matched
      rw [remembered_of_hit matched found]
      exact ⟨rfl, rfl⟩
    | none =>
      rw [remembered_of_fresh matched]
      exact ⟨rfl, rfl⟩
  · have used : event m = .use { preset with lastUsedAtMs := usedNowMs m.before now } now.ms := by
      rw [event, called]
      dsimp only
      rw [touchEvent, found]
    have its : preset.id = id := by simpa using List.find?_some found
    exact ⟨_, placed.first _ _ used, its, rfl⟩

theorem event_now {m : Moment (List Preset) Input} {row : Preset} {now : Int} (used : event m = .use row now) :
    now ≤ kMaxStampMs := by
  unfold event at used
  split at used
  · cases used
  · cases used
    exact Clock.le_kMaxStampMs _
  · exact touchEvent_now used
  · cases used
  · cases used

theorem fits_run_presets (run : Run (Step parseJson) [] ms presets) (few : uses ms < 2 ^ 62) : ∀ m ∈ ms, Fits m := by
  intro m member
  refine fits_run (run.relabel step_simulates) (fun m' listed row now used => ?_) few _ (List.mem_map_of_mem member)
  obtain ⟨m, -, rfl⟩ := List.mem_map.mp listed
  exact event_now used

theorem distinct_run (run : Run (Step parseJson) [] ms presets) (keeps : ∀ m ∈ ms, ¬Unnames m.before m.input) :
    ∀ m ∈ ms, Distinct m.after := by
  have all := (run.invariant (P := Distinct) (Q := fun m => ¬Unnames m.before m.input)
    (fun m keeps step distinct => by
      obtain ⟨before, input, after⟩ := m
      obtain rfl : StreamInfoPresets.step parseJson before input = after := step
      exact step_distinct distinct keeps) keeps .nil).2
  exact fun m member => (all m member).2

/-- In a run that never takes the name from a preset whose identity an unnamed one has, the store
keeps what was just used, first, ordered and capped, its stamps in range, and no two unnamed
presets of one identity. -/
theorem keeps_used (run : Run (Step parseJson) [] ms presets) (few : uses ms < 2 ^ 62)
    (keeps : ∀ m ∈ ms, ¬Unnames m.before m.input) : ∀ m ∈ ms, Placed m ∧ Fits m ∧ Distinct m.after :=
  fun m member => ⟨placed_run run m member, fits_run_presets run few m member, distinct_run run keeps m member⟩

end

/-- A file with the same sheet twice, the older one named. -/
def savedTwice : Json :=
  .obj [("presets", .arr [
    .obj [("id", .str "u"), ("lastUsedAtMs", .num 2), ("shared", .obj [("title", .str "A")])],
    .obj [("id", .str "n"), ("lastUsedAtMs", .num 1), ("name", .str "N"), ("shared", .obj [("title", .str "A")])]])]

/-- What a go-live titled "B" brings in. -/
def otherSheet : Incoming where
  shared := .obj [("title", .str "B")]
  byProvider := .obj []
  newId := "b"
  now := { ms := 0 }
  createdNow := { ms := 0 }

def noJson (_ : String) : Option Json := none

/-- The clock is behind the file's stamps, and the older row is touched. -/
theorem keeps_used_touched : ∃ ms presets, Run (Step noJson) [] ms presets ∧ presets.map (·.id) = ["n", "b", "u"] ∧
    ∀ m ∈ ms, Placed m ∧ Fits m ∧ Distinct m.after := by
  have run := run_trace (step noJson) []
    [.load savedTwice { ms := 0 }, .remember otherSheet, .touch "n" { ms := -5 }]
  refine ⟨_, _, run, by decide, keeps_used run (by decide) fun m member => ?_⟩
  rintro ⟨id, preset, renamed, -⟩
  have called := input_of_mem_trace member
  rw [renamed] at called
  simp at called

/-- Once the named row has lost its name, remembering another sheet leaves two unnamed rows of one identity. -/
theorem not_keeps_used : ¬∀ (parseJson : String → Option Json) (ms : List (Moment (List Preset) Input)) (presets : List Preset),
    Run (Step parseJson) [] ms presets → ∀ m ∈ ms, (∃ incoming, m.input = .remember incoming) → Distinct m.after := by
  intro all
  have last := last_mem_trace (step noJson) [] [.load savedTwice { ms := 0 }, .rename "n" ""] (.remember otherSheet)
  have distinct := all noJson _ _ (run_trace (step noJson) [] _) _ last ⟨_, rfl⟩
  exact absurd distinct (by decide)

end StreamInfoPresets

/-! ### The other store -/

namespace PollTemplates

variable {templates : List Template} {row : Template} {ms : List (Moment (List Template) Input)}

/-- The template that is remembered: the one of the same poll, or a fresh one. -/
def remembered (templates : List Template) (incoming : Incoming) : Template :=
  match templates.find? (matchesPoll incoming) with
  | some row => { row with lastUsedAtMs := usedNowMs templates incoming.now }
  | none => {
      id := incoming.newId
      lastUsedAtMs := usedNowMs templates incoming.now
      data := {
        createdAtMs := incoming.createdNow.ms
        question := trim incoming.question
        options := incoming.options.map trim } }

/-- The template that a call uses, and when. -/
def event (m : Moment (List Template) Input) : Recent.Event Template :=
  match m.input with
  | .load _ _ => .load
  | .remember incoming => .use (remembered m.before incoming) incoming.now.ms
  | .touch id now => touchEvent m.before id now
  | .rename _ _ => .quiet
  | .remove _ => .quiet

def asHistory (m : Moment (List Template) Input) : Moment (List Template) (Recent.Event Template) :=
  ⟨m.before, event m, m.after⟩

theorem readTemplate_small {now : Clock} {item : Json} (read : readTemplate now item = some row) :
    row.lastUsedAtMs ≤ kMaxStampMs := by
  unfold readTemplate at read
  split at read
  · split at read
    · cases read
    · cases read
      exact readTimestamp_le ..
  · cases read

theorem load_step (root : Json) (now : Clock) : MruRows.Step kMaxTemplates templates .load (load root now) := by
  unfold load
  split
  · refine .load (fun row member => ?_) (List.Sublist.refl _)
    obtain ⟨item, -, read⟩ := List.mem_filterMap.mp member
    exact readTemplate_small read
  · have none_ : ∀ row ∈ ([] : List Template), row.lastUsedAtMs ≤ kMaxStampMs := fun _ absent => nomatch absent
    exact .load none_ (List.nil_sublist _)

theorem remember_step (templates : List Template) (incoming : Incoming) :
    MruRows.Step kMaxTemplates templates (.use (remembered templates incoming) incoming.now.ms)
      (remember templates incoming).1 := by
  unfold remembered remember
  cases found : templates.find? (matchesPoll incoming) with
  | some row => exact markUsed_step found kMaxTemplates (fun poll => poll) incoming.now
  | none => exact addUsed_step ..

theorem step_simulates (m : Moment (List Template) Input) (step : Step m.before m.input m.after) :
    MruRows.Step kMaxTemplates m.before (event m) m.after := by
  obtain ⟨before, input, after⟩ := m
  obtain rfl : PollTemplates.step before input = after := step
  cases input with
  | load root now => exact load_step root now
  | remember incoming => exact remember_step before incoming
  | touch id now => exact touch_step ..
  | rename id name => exact rename_step ..
  | remove id => exact remove_step ..

theorem event_now {m : Moment (List Template) Input} {now : Int} (used : event m = .use row now) : now ≤ kMaxStampMs := by
  unfold event at used
  split at used
  · cases used
  · cases used
    exact Clock.le_kMaxStampMs _
  · exact touchEvent_now used
  · cases used
  · cases used

/-- The templates keep what was just used, first, ordered and capped, with their stamps in range. -/
theorem templates_placed (run : Run Step [] ms templates) :
    (∀ m ∈ ms, MruRows.Placed kMaxTemplates (asHistory m)) ∧
      (Recent.uses (ms.map asHistory) < 2 ^ 62 → ∀ m ∈ ms, MruRows.Fits (asHistory m)) := by
  have history := run.relabel step_simulates
  refine ⟨fun m member => placed_run history (by decide) _ (List.mem_map_of_mem member), fun few m member => ?_⟩
  refine fits_run history (fun m' listed row now used => ?_) few _ (List.mem_map_of_mem member)
  obtain ⟨m, -, rfl⟩ := List.mem_map.mp listed
  exact event_now used

/-- The older of two polls is touched, with the clock set back. -/
theorem templates_placed_touched : ∃ ms templates, Run Step [] ms templates ∧ templates.map (·.id) = ["a", "b"] ∧
    ∀ m ∈ ms, MruRows.Placed kMaxTemplates (asHistory m) ∧ MruRows.Fits (asHistory m) := by
  have run := run_trace step []
    [.remember ⟨"Q", ["x"], "a", { ms := 2 }, { ms := 2 }⟩, .remember ⟨"R", ["y"], "b", { ms := 3 }, { ms := 3 }⟩, .touch "a" { ms := -5 }]
  obtain ⟨placed, fits⟩ := templates_placed run
  exact ⟨_, _, run, by decide, fun m member => ⟨placed m member, fits (by decide) m member⟩⟩

end PollTemplates

end Braidcast.Multistream
