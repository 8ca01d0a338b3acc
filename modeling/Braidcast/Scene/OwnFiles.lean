import Braidcast.Scene.Sound

/-!
# Every collection has files of its own

No two collections resolve to one file. What a collection loads when it is first opened and
what a copy gets hang on the name the new record is given: `Remove` deletes the scene file
alone, and its name is free again while the other files under it are still there.
-/
namespace Braidcast.Scene

open Lib Multistream

namespace SceneCollections

variable {α : Type} {s t u : SceneCollections α} {fallback : StoreKind → α} {hasSources : α → Bool}
  {c source : SceneCollectionRecord} {id sourceId name active seedId : String}

/-- No file of one collection is a file of another. -/
def FilesApart (s : SceneCollections α) : Prop :=
  s.collections.Pairwise fun c d => ∀ kind kind' : StoreKind, kind.rel c.sceneFile ≠ kind'.rel d.sceneFile

theorem Sound.filesApart (sound : s.Sound) : s.FilesApart := by
  have distinct := sound.ownFile
  rw [List.Nodup, List.pairwise_map] at distinct
  apply List.Pairwise.imp_of_mem _ distinct
  intro c d stored stored' apart kind kind'
  exact place_ne (sound.named c stored) (sound.named d stored') (.inl apart) false false

/-- Under the name the new record is given no store is left that loads, and for a duplicate no
store at all; what is duplicated loads from its main files. -/
def NothingLeft (s : SceneCollections α) : CollectionStep α → Prop
  | .create name _ => ∀ rel ∈ s.uniqueSceneFileForName name, ∀ kind ∈ StoreKind.all, loadStore s.files (kind.rel rel) = none
  | .duplicate sourceId name _ =>
    (∀ source ∈ s.find sourceId, source.id ≠ s.activeId → ∀ kind ∈ StoreKind.all, Settled s.files (kind.rel source.sceneFile)) ∧
    ∀ rel ∈ s.uniqueSceneFileForName name, ∀ kind ∈ StoreKind.all,
      s.files.read (kind.rel rel) = none ∧ loadStore s.files (kind.rel rel) = none
  | _ => True

/-! ### The start -/

/-- An index as the application writes it. -/
structure Written (index : List SceneCollectionRecord) : Prop where
  named : ∀ c ∈ index, WellNamed c.sceneFile
  ownFile : (index.map (·.sceneFile)).Nodup
  ownId : (index.map (·.id)).Nodup

theorem wellNamed_seed : WellNamed "scene_collection.json" := by
  refine ⟨"scene_collection".toList, by decide, ?_⟩
  intro kind other
  rw [← List.isSuffixOf_iff_suffix]
  cases kind with
  | scene => exact absurd rfl other
  | bindings => decide
  | links => decide

/-- The application starts sound. -/
theorem sound_boot {index : List SceneCollectionRecord} {files : Files String (Content α)} (written : Written index) :
    (boot fallback hasSources index active seedId files).Sound := by
  obtain ⟨named, ownFile, ownId⟩ := written
  have sub : (index.filter fun c => c.id ≠ "" ∧ c.sceneFile ≠ "").Sublist index := List.filter_sublist
  simp only [boot, loadAll_eq]
  by_cases empty : (index.filter fun c => c.id ≠ "" ∧ c.sceneFile ≠ "") = []
  · rw [if_pos empty]
    apply sound_loads
    · intro c stored
      rw [List.mem_singleton.mp stored]
      exact wellNamed_seed
    · exact List.nodup_singleton _
    · exact List.nodup_singleton _
    · exact fun c stored => List.mem_map_of_mem stored
    · split
      next listed => exact List.contains_iff_mem.mp listed
      · exact List.mem_singleton.mpr rfl
  · rw [if_neg empty]
    apply sound_loads
    · exact fun c stored => named c (sub.mem stored)
    · exact ownFile.sublist (sub.map _)
    · exact ownId.sublist (sub.map _)
    · exact fun c stored => List.mem_map_of_mem stored
    · split
      next listed => exact List.contains_iff_mem.mp listed
      · obtain ⟨c, rest, cons⟩ := List.exists_cons_of_ne_nil empty
        rw [cons]
        exact List.mem_cons_self

variable [DecidableEq α]

/-! ### A created collection -/

theorem unseen_of_create (sound : s.Sound) (nothing : s.NothingLeft (.create name id))
    (step : s.step fallback hasSources (.create name id) = some t) : id ≠ t.activeId ∧ t.Unseen id := by
  obtain ⟨fresh, record, created⟩ := create_step_cases step
  obtain ⟨rel, named, same, after⟩ := create_cases created
  obtain rfl : t = _ := after
  refine ⟨sound.inactive_of_fresh fresh, List.mem_cons_self, ?_⟩
  intro c stored sameId kind
  rcases mem_of_create created stored with ⟨old, _⟩ | new
  · exact absurd (sameId ▸ sound.known c old) fresh
  · rw [new, same]
    exact nothing rel named kind kind.mem_all

/-- The first time a created collection is the active one it has come up empty. -/
theorem Sound.first_open {ys : List (Moment (SceneCollections α) (CollectionStep α))} {ma : Moment (SceneCollections α) (CollectionStep α)}
    (sound : s.Sound) (inactive : id ≠ s.activeId) (unseen : s.Unseen id)
    (run : Run (fun s i t => s.step fallback hasSources i = some t) s (ys ++ [ma]) t) (unopened : ∀ m ∈ ys, m.after.activeId ≠ id)
    (opens : ma.after.activeId = id) (kind : StoreKind) : ma.after.memory kind = fallback kind := by
  obtain ⟨w, waiting, last⟩ := Run.append_iff.mp run
  obtain ⟨same, step, _⟩ := Run.cons_iff.mp last
  have there : w.Sound ∧ id ≠ w.activeId ∧ w.Unseen id := by
    apply (waiting.invariant (Q := fun m => m.after.activeId ≠ id) _ unopened ⟨sound, inactive, unseen⟩).1
    intro m unopened step ⟨sound, inactive, unseen⟩
    refine ⟨sound.step step, Ne.symm unopened, ?_⟩
    rcases unseen.step sound inactive step with ⟨_, still⟩ | ⟨opened, _⟩
    · exact still
    · exact absurd opened.symm unopened
  obtain ⟨sound, inactive, unseen⟩ := there
  rcases unseen.step sound inactive step with ⟨closed, _⟩ | ⟨_, empty⟩
  · exact absurd opens.symm closed
  · exact empty kind

/-! ### A duplicate -/

/-- The save before the copy makes no difference to the name that is found. -/
theorem Sound.uniqueSceneFileForName_saves {kinds : List StoreKind} {rel rel' : String} (sound : s.Sound)
    (named : s.uniqueSceneFileForName name = some rel) (named' : (s.saves kinds).uniqueSceneFileForName name = some rel') : rel = rel' := by
  apply firstFree_unique _ named named'
  intro i
  obtain ⟨a, stored, isActive, _⟩ := sound.active
  by_cases own : sceneFileFor name i = a.sceneFile
  · have listed : ∀ t : SceneCollections α, t.collections = s.collections → t.clashes (sceneFileFor name i) = true := by
      intro t same
      rw [clashes, same, Bool.or_eq_true]
      exact .inl (List.any_eq_true.mpr ⟨a, stored, decide_eq_true own.symm⟩)
    rw [listed s rfl, listed _ (sameRecords_saves s kinds).collections]
  · have other : ∀ c ∈ s.collections, c.id = s.activeId → sceneFileFor name i ≠ c.sceneFile := by
      intro c stored' isActive'
      rw [sound.eq_of_id stored' stored (isActive'.trans isActive.symm)]
      exact own
    have kept := (sound.keeps_saves kinds (wellNamed_sceneFileFor name i) other .scene).main
    have same : (s.saves kinds).files.read (sceneFileFor name i) = s.files.read (sceneFileFor name i) := kept
    rw [clashes, clashes, (sameRecords_saves s kinds).collections, same]

/-- What is duplicated is in order once it has been flushed, and holds what it held. -/
theorem Sound.flushed (sound : s.Sound) (stored : source ∈ s.collections)
    (settled : source.id ≠ s.activeId → ∀ kind ∈ StoreKind.all, Settled s.files (kind.rel source.sceneFile)) (kind : StoreKind) :
    Settled (s.saves (s.flushedKinds source)).files (kind.rel source.sceneFile) ∧
      loadStore (s.saves (s.flushedKinds source)).files (kind.rel source.sceneFile) = s.content source kind := by
  obtain ⟨a, stored', isActive', active⟩ := sound.active
  rw [flushedKinds]
  split
  next isActive =>
    obtain rfl := sound.eq_of_id stored stored' (isActive.trans isActive'.symm)
    exact ⟨(sound.saves StoreKind.all).settled source ((sameRecords_saves s _).collections ▸ stored)
        (isActive.trans (sameRecords_saves s _).activeId.symm) kind,
      loadStore_saves (sound.named source stored) active isActive kind.mem_all⟩
  next inactive =>
    rw [content, if_neg (fun both => inactive both.1)]
    exact ⟨settled inactive kind kind.mem_all, rfl⟩

theorem duplicate_content (sound : s.Sound) (nothing : s.NothingLeft (.duplicate sourceId name id)) (found : s.find sourceId = some source)
    (step : s.step fallback hasSources (.duplicate sourceId name id) = some t) :
    ∃ copy, t.find id = some copy ∧ ∀ kind : StoreKind, loadStore t.files (kind.rel copy.sceneFile) = s.content source kind := by
  have sound' := sound.step step
  obtain ⟨fresh, ⟨missing, _⟩ | ⟨source', p, found', created, rfl⟩⟩ := duplicate_cases step
  · rw [found] at missing
    cases missing
  · obtain rfl := Option.some.inj (found.symm.trans found')
    have stored := (mem_of_find found).1
    rw [flushed_eq] at created
    have same := sameRecords_saves s (s.flushedKinds source)
    obtain ⟨rel, named, record, after⟩ := create_cases created
    obtain ⟨free, _⟩ := free_of_uniqueSceneFileForName named
    have wellNamed := wellNamed_of_uniqueSceneFileForName named
    rw [same.collections] at free
    -- the name is the one found before the save, so nothing is left under it
    obtain ⟨rel', named'⟩ := Option.isSome_iff_exists.mp (isSome_uniqueSceneFileForName s name)
    obtain rfl := sound.uniqueSceneFileForName_saves named' named
    refine ⟨⟨id, name, rel'⟩, ?_, ?_⟩
    · apply find_of_ownId (c := ⟨id, name, rel'⟩) sound'.ownId
      rw [after]
      exact List.mem_append_right _ (List.mem_singleton.mpr rfl)
    · intro kind
      have kept := sound.keeps_saves (s.flushedKinds source) wellNamed (fun a stored _ same => free a stored same.symm) kind
      obtain ⟨absent, nothing'⟩ := nothing.2 rel' named' kind kind.mem_all
      obtain ⟨settled, content⟩ := sound.flushed stored (nothing.1 source found) kind
      rw [record, after, ← content]
      exact loadStore_copies (sound.named source stored) wellNamed (free source stored) (by decide) kind.mem_all settled
        (kept.main.trans absent) (kept.loadStore.trans nothing')

/-! ### Runs -/

/-- The first time a created collection is opened, nothing comes up that was there before. -/
def OpensEmpty (fallback : StoreKind → α) (ms : List (Moment (SceneCollections α) (CollectionStep α))) : Prop :=
  ∀ xs mc ys ma zs name id, ms = xs ++ mc :: (ys ++ ma :: zs) → mc.input = .create name id →
    (∀ m ∈ ys, m.after.activeId ≠ id) → ma.after.activeId = id → ∀ kind, ma.after.memory kind = fallback kind

/-- What the stores of a duplicate load is what the source had. -/
def CopyHolds (m : Moment (SceneCollections α) (CollectionStep α)) : Prop :=
  ∀ sourceId name id source, m.input = .duplicate sourceId name id → m.before.find sourceId = some source →
    ∃ copy, m.after.find id = some copy ∧
      ∀ kind : StoreKind, loadStore m.after.files (kind.rel copy.sceneFile) = m.before.content source kind

/-- In every run in which nothing is left under the names new records are given, every
collection has files of its own. -/
theorem files_of_their_own {index : List SceneCollectionRecord} {files : Files String (Content α)}
    {ms : List (Moment (SceneCollections α) (CollectionStep α))} (written : Written index)
    (run : Run (fun s i t => s.step fallback hasSources i = some t) (boot fallback hasSources index active seedId files) ms u)
    (nothing : ∀ m ∈ ms, m.before.NothingLeft m.input) :
    (u.FilesApart ∧ ∀ m ∈ ms, m.before.FilesApart) ∧ OpensEmpty fallback ms ∧ ∀ m ∈ ms, CopyHolds m := by
  have start : (boot fallback hasSources index active seedId files).Sound := sound_boot written
  have each := run.invariant (P := Sound) (Q := fun _ => True) (fun _ _ step sound => sound.step step) (fun _ _ => trivial) start
  refine ⟨⟨each.1.filesApart, fun m member => (each.2 m member).1.filesApart⟩, ?_, ?_⟩
  · intro xs mc ys ma zs name id cut creates unopened opens kind
    subst cut
    have member : mc ∈ xs ++ mc :: (ys ++ ma :: zs) := List.mem_append_right _ List.mem_cons_self
    have step := run.step_of_mem member
    rw [creates] at step
    have clear := nothing mc member
    rw [creates] at clear
    obtain ⟨inactive, unseen⟩ := unseen_of_create (each.2 mc member).1 clear step
    obtain ⟨_, _, rest⟩ := Run.append_iff.mp run
    obtain ⟨_, _, rest⟩ := Run.cons_iff.mp rest
    rw [show ys ++ ma :: zs = (ys ++ [ma]) ++ zs by simp] at rest
    obtain ⟨_, through, _⟩ := Run.append_iff.mp rest
    exact (each.2 mc member).2.first_open inactive unseen through unopened opens kind
  · intro m member sourceId name id source copies found
    have step := run.step_of_mem member
    rw [copies] at step
    have clear := nothing m member
    rw [copies] at clear
    exact duplicate_content (each.2 m member).1 clear found step

/-! ### Runs on a folder without an index -/

instance (s : SceneCollections α) : (i : CollectionStep α) → Decidable (s.NothingLeft i)
  | .create name _ => inferInstanceAs
      (Decidable (∀ rel ∈ s.uniqueSceneFileForName name, ∀ kind ∈ StoreKind.all, loadStore s.files (kind.rel rel) = none))
  | .duplicate sourceId name _ => inferInstanceAs (Decidable
      ((∀ source ∈ s.find sourceId, source.id ≠ s.activeId → ∀ kind ∈ StoreKind.all,
          loadStore s.files (kind.rel source.sceneFile) = createFromJsonFile (s.files.read (kind.rel source.sceneFile))) ∧
        ∀ rel ∈ s.uniqueSceneFileForName name, ∀ kind ∈ StoreKind.all,
          s.files.read (kind.rel rel) = none ∧ loadStore s.files (kind.rel rel) = none))
  | .rename .. | .switch .. | .remove .. | .edit .. | .save .. => inferInstanceAs (Decidable True)

/-- Numbers for the states: 0 is the fallback and the one without sources. -/
def firstStart : SceneCollections Nat :=
  boot (fun _ => 0) (fun n => n ≠ 0) [] "" "s" []

theorem written_nil : Written [] :=
  ⟨by simp, List.nodup_nil, List.nodup_nil⟩

/-- A collection is created, filled, duplicated and removed, and another takes its place. -/
theorem files_of_their_own_over_copy : ∃ (ms : List (Moment (SceneCollections Nat) (CollectionStep Nat))) (u : SceneCollections Nat),
    Run (fun s i t => s.step (fun _ => 0) (fun n => n ≠ 0) i = some t) firstStart ms u ∧ (∀ m ∈ ms, m.before.NothingLeft m.input) ∧
      u.collections.map (·.sceneFile) = ["scene_collection.json", "scenes/show-2.json", "scenes/other.json"] ∧
      (u.FilesApart ∧ ∀ m ∈ ms, m.before.FilesApart) ∧ OpensEmpty (fun _ => 0) ms ∧ ∀ m ∈ ms, CopyHolds m := by
  obtain ⟨ms, u, run, shown⟩ := exists_run_of_follow (SceneCollections.step (fun _ => 0) (fun n => n ≠ 0)) firstStart
    [.create "Show" "a", .switch "a" false, .edit .scene 5, .edit .bindings 7, .duplicate "a" "Show" "b", .rename "b" "Copy",
      .remove "a" false, .create "Other" "c", .switch "c" false]
    (fun ms u => ms.all (fun m => m.before.NothingLeft m.input) &&
      u.collections.map (·.sceneFile) = ["scene_collection.json", "scenes/show-2.json", "scenes/other.json"]) (by decide +kernel)
  rw [Bool.and_eq_true, List.all_eq_true] at shown
  obtain ⟨clear, names⟩ := shown
  have nothing : ∀ m ∈ ms, m.before.NothingLeft m.input := fun m member => of_decide_eq_true (clear m member)
  exact ⟨ms, u, run, nothing, of_decide_eq_true names, files_of_their_own written_nil run nothing⟩

/-- A collection is removed and another of its name created: its bindings come up from the
file that was left and its scenes from the backup. -/
theorem removed_files_load : ¬ ∀ (index : List SceneCollectionRecord) (active seedId : String) (files : Files String (Content Nat))
    (ms : List (Moment (SceneCollections Nat) (CollectionStep Nat))) (u : SceneCollections Nat), Written index →
      Run (fun s i t => s.step (fun _ => 0) (fun n => n ≠ 0) i = some t) (boot (fun _ => 0) (fun n => n ≠ 0) index active seedId files) ms u →
      (u.FilesApart ∧ ∀ m ∈ ms, m.before.FilesApart) ∧ OpensEmpty (fun _ => 0) ms ∧ ∀ m ∈ ms, CopyHolds m := by
  intro claimed
  obtain ⟨xs, mc, ys, u, run, shown⟩ := exists_run_through (SceneCollections.step (fun _ => 0) (fun n => n ≠ 0)) firstStart
    [.create "Show" "a", .switch "a" false, .edit .scene 5, .edit .bindings 7, .save .scene, .edit .scene 6, .switch "s" false,
      .remove "a" false, .create "Show" "b", .switch "b" false] 8
    (fun mc ys _ => mc.input = .create "Show" "b" && (ys.head?).any fun ma =>
      ma.after.activeId = "b" && ma.after.memory .bindings = 7 && ma.after.memory .scene = 5) (by decide +kernel)
  cases ys with
  | nil => simp at shown
  | cons ma zs =>
    simp only [List.head?_cons, Option.any_some, Bool.and_eq_true, decide_eq_true_eq] at shown
    obtain ⟨creates, ⟨opens, bindings⟩, _⟩ := shown
    have empty := (claimed [] "" "s" [] _ u written_nil run).2.1 xs mc [] ma zs "Show" "b" rfl creates (by simp) opens .bindings
    rw [bindings] at empty
    cases empty

end SceneCollections

end Braidcast.Scene
