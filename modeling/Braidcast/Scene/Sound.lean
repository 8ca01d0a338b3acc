import Braidcast.Lib.Lists
import Braidcast.Scene.SavesAndLoads

/-!
# What every step on the collections keeps

Ids and scene files stay apart, the active collection's stores are in order, and a collection
that nobody has opened keeps its files as they were made.
-/
namespace Braidcast.Scene

open Lib Multistream

namespace SceneCollections

variable {α : Type} {s t : SceneCollections α} {c d : SceneCollectionRecord} {id x name rel : String}

/-! ### The name of a new scene file -/

section

variable (named : s.uniqueSceneFileForName name = some rel)
include named

theorem firstFree_of_uniqueSceneFileForName :
    s.clashes rel = false ∧ ∃ i, rel = sceneFileFor name i :=
  firstFree_eq_some named

theorem wellNamed_of_uniqueSceneFileForName : WellNamed rel := by
  obtain ⟨_, i, rfl⟩ := firstFree_of_uniqueSceneFileForName named
  exact wellNamed_sceneFileFor name i

/-- The name is no other record's and not that of a file. -/
theorem free_of_uniqueSceneFileForName :
    (∀ c ∈ s.collections, c.sceneFile ≠ rel) ∧ s.files.read rel = none := by
  have free := (firstFree_of_uniqueSceneFileForName named).1
  rw [clashes, Bool.or_eq_false_iff, List.any_eq_false] at free
  constructor
  · intro c member same
    exact free.1 c member (decide_eq_true same)
  · simpa using free.2

end

/-- The search for a name always ends. -/
theorem isSome_uniqueSceneFileForName (s : SceneCollections α) (name : String) : (s.uniqueSceneFileForName name).isSome := by
  -- only the names of records and files clash, and there is one try more than those
  have within : ∀ rel, s.clashes rel = true → rel ∈ s.collections.map (·.sceneFile) ++ s.files.map Prod.fst := by
    intro rel taken
    rw [clashes, Bool.or_eq_true] at taken
    rcases taken with listed | there
    · obtain ⟨c, member, same⟩ := List.any_eq_true.mp listed
      exact List.mem_append_left _ (List.mem_map.mpr ⟨c, member, of_decide_eq_true same⟩)
    · obtain ⟨content, found⟩ := Option.isSome_iff_exists.mp there
      exact List.mem_append_right _ (Files.mem_names found)
  apply isSome_firstFree (fun _ _ same => sceneFileFor_inj same) within
  rw [List.length_append, List.length_map, List.length_map]
  omega

variable {p : SceneCollections α × SceneCollectionRecord}

theorem create_cases (created : s.create name id = some p) :
    ∃ rel, s.uniqueSceneFileForName name = some rel ∧ p.2 = ⟨id, name, rel⟩ ∧
      p.1 = { s with collections := s.collections ++ [⟨id, name, rel⟩], issued := id :: s.issued } := by
  obtain ⟨rel, named, rfl⟩ := Option.map_eq_some_iff.mp created
  exact ⟨rel, named, rfl, rfl⟩

/-- A record was there before or is the new one, whose file no other has. -/
theorem mem_of_create (created : s.create name id = some p)
    (member : c ∈ p.1.collections) : c ∈ s.collections ∧ c.sceneFile ≠ p.2.sceneFile ∨ c = p.2 := by
  obtain ⟨rel, named, record, after⟩ := create_cases created
  rw [after] at member
  rw [record]
  rcases List.mem_append.mp member with old | new
  · exact .inl ⟨old, (free_of_uniqueSceneFileForName named).1 c old⟩
  · exact .inr (List.mem_singleton.mp new)

/-! ### The invariant -/

/-- Every collection has an id and a scene file of its own. The active one has been loaded. -/
structure Sound (s : SceneCollections α) : Prop where
  named : ∀ c ∈ s.collections, WellNamed c.sceneFile
  ownFile : (s.collections.map (·.sceneFile)).Nodup
  ownId : (s.collections.map (·.id)).Nodup
  known : ∀ c ∈ s.collections, c.id ∈ s.issued
  opened : s.activeId ∈ s.collections.map (·.id)
  settled : ∀ c ∈ s.collections, c.id = s.activeId → ∀ kind : StoreKind, Settled s.files (kind.rel c.sceneFile)

theorem mem_of_find (found : s.find id = some c) : c ∈ s.collections ∧ c.id = id :=
  ⟨List.mem_of_find?_eq_some found, by simpa using List.find?_some found⟩

theorem Sound.eq_of_id (sound : s.Sound) (stored : c ∈ s.collections) (stored' : d ∈ s.collections) (same : c.id = d.id) : c = d :=
  List.inj_on_of_nodup_map sound.ownId stored stored' same

theorem Sound.eq_of_file (sound : s.Sound) (stored : c ∈ s.collections) (stored' : d ∈ s.collections)
    (same : c.sceneFile = d.sceneFile) : c = d :=
  List.inj_on_of_nodup_map sound.ownFile stored stored' same

theorem find_of_ownId (ownId : (s.collections.map (·.id)).Nodup) (stored : c ∈ s.collections) : s.find c.id = some c := by
  cases found : s.find c.id with
  | none =>
    have missing := List.find?_eq_none.mp found c stored
    exact absurd (decide_eq_true rfl) missing
  | some d =>
    obtain ⟨stored', same⟩ := mem_of_find found
    rw [List.inj_on_of_nodup_map ownId stored' stored same]

section

variable (sound : s.Sound)
include sound

/-- The active collection's record. -/
theorem Sound.active : ∃ a ∈ s.collections, a.id = s.activeId ∧ s.active = some a := by
  obtain ⟨a, stored, isActive⟩ := List.mem_map.mp sound.opened
  have found := find_of_ownId sound.ownId stored
  rw [isActive] at found
  refine ⟨a, stored, isActive, ?_⟩
  rw [SceneCollections.active, found]

/-- With several collections there is one to switch to. -/
theorem Sound.exists_other (stored : c ∈ s.collections) (several : s.collections.length ≠ 1) (id : String) :
    ∃ d, (s.collections.find? fun c => c.id ≠ id) = some d ∧ d ∈ s.collections ∧ d.id ≠ id := by
  cases found : s.collections.find? fun c => c.id ≠ id with
  | some d => exact ⟨d, rfl, List.mem_of_find?_eq_some found, by simpa using List.find?_some found⟩
  | none =>
    rw [List.find?_eq_none] at found
    have ownId := sound.ownId
    cases listed : s.collections with
    | nil =>
      rw [listed] at stored
      cases stored
    | cons c tail =>
      cases tail with
      | nil =>
        rw [listed] at several
        exact absurd rfl several
      | cons d rest =>
        -- two records without another id than `id` would share it
        rw [listed] at found ownId
        have first := found c List.mem_cons_self
        have second := found d (List.mem_cons_of_mem _ List.mem_cons_self)
        simp only [ne_eq, decide_not, Bool.not_eq_true', decide_eq_false_iff_not, not_not] at first second
        simp only [List.map_cons, List.nodup_cons] at ownId
        exact absurd (first.trans second.symm ▸ List.mem_cons_self) ownId.1

/-- The records are the same, and the active one's stores are in order. -/
theorem Sound.of_sameRecords (same : s.SameRecords t)
    (settled : ∀ c ∈ s.collections, c.id = s.activeId → ∀ kind : StoreKind, Settled t.files (kind.rel c.sceneFile)) : t.Sound := by
  refine ⟨?_, ?_, ?_, ?_, ?_, ?_⟩
  · rw [same.collections]
    exact sound.named
  · rw [same.collections]
    exact sound.ownFile
  · rw [same.collections]
    exact sound.ownId
  · rw [same.collections, same.issued]
    exact sound.known
  · rw [same.collections, same.activeId]
    exact sound.opened
  · rw [same.collections, same.activeId]
    exact settled

theorem Sound.saves [DecidableEq α] (kinds : List StoreKind) : (s.saves kinds).Sound := by
  obtain ⟨a, stored, isActive, active⟩ := sound.active
  apply sound.of_sameRecords (sameRecords_saves s kinds)
  intro c stored' isActive' kind
  obtain rfl := sound.eq_of_id stored' stored (isActive'.trans isActive.symm)
  exact settled_saves (sound.named c stored) active (sound.settled c stored isActive) kind

/-- A save leaves the files of the collections that are not active. -/
theorem Sound.keeps_saves [DecidableEq α] (kinds : List StoreKind) (named : WellNamed rel)
    (other : ∀ a ∈ s.collections, a.id = s.activeId → rel ≠ a.sceneFile) (kind : StoreKind) :
    Keeps s.files (s.saves kinds).files rel kind := by
  obtain ⟨a, stored, isActive, active⟩ := sound.active
  exact SceneCollections.keeps_saves named (sound.named a stored) active (.inl (other a stored isActive))

theorem Sound.file_ne_active (stored : c ∈ s.collections) (inactive : c.id ≠ s.activeId) :
    ∀ a ∈ s.collections, a.id = s.activeId → c.sceneFile ≠ a.sceneFile := by
  intro a stored' isActive same
  rw [sound.eq_of_file stored stored' same] at inactive
  exact inactive isActive

/-! ### A new record -/

theorem Sound.inactive_of_fresh (fresh : id ∉ s.issued) : id ≠ s.activeId := by
  rintro rfl
  obtain ⟨a, stored, isActive⟩ := List.mem_map.mp sound.opened
  exact fresh (isActive ▸ sound.known a stored)

theorem Sound.create (fresh : id ∉ s.issued) (created : s.create name id = some p) : p.1.Sound := by
  obtain ⟨rel, named, record, same⟩ := create_cases created
  obtain ⟨free, _⟩ := free_of_uniqueSceneFileForName named
  have stored : ∀ c ∈ p.1.collections, c ∈ s.collections ∨ c = ⟨id, name, rel⟩ := by
    intro c member
    rcases mem_of_create created member with ⟨old, _⟩ | new
    · exact .inl old
    · exact .inr (new.trans record)
  refine ⟨?_, ?_, ?_, ?_, ?_, ?_⟩
  · intro c member
    rcases stored c member with old | rfl
    · exact sound.named c old
    · exact wellNamed_of_uniqueSceneFileForName named
  · rw [same]
    apply nodup_map_concat sound.ownFile
    intro member
    obtain ⟨c, old, sameFile⟩ := List.mem_map.mp member
    exact free c old sameFile
  · rw [same]
    apply nodup_map_concat sound.ownId
    intro member
    obtain ⟨c, old, sameId⟩ := List.mem_map.mp member
    have known := sound.known c old
    rw [sameId] at known
    exact fresh known
  · intro c member
    rw [same]
    rcases stored c member with old | rfl
    · exact List.mem_cons_of_mem _ (sound.known c old)
    · exact List.mem_cons_self
  · rw [same, List.map_append]
    exact List.mem_append_left _ sound.opened
  · intro c member isActive kind
    rw [same] at isActive ⊢
    rcases stored c member with old | rfl
    · exact sound.settled c old isActive kind
    · exact absurd isActive (sound.inactive_of_fresh fresh)

/-- The copies go to names no collection has. -/
theorem Sound.copies {source : String} {kinds : List StoreKind} (named : WellNamed rel)
    (free : ∀ c ∈ s.collections, c.id = s.activeId → c.sceneFile ≠ rel) :
    Sound { s with files := copies s.files source rel kinds } := by
  have same : s.SameRecords { s with files := SceneCollections.copies s.files source rel kinds } := ⟨rfl, rfl, rfl⟩
  apply sound.of_sameRecords same
  intro c stored isActive kind
  exact (keeps_copies (sound.named c stored) named (free c stored isActive)).settled (sound.settled c stored isActive kind)

end

/-- A rename keeps every id and every scene file. -/
theorem map_renameFirst {cs cs' : List SceneCollectionRecord} (renamed : renameFirst id name cs = some cs') :
    cs'.map (fun c => (c.id, c.sceneFile)) = cs.map fun c => (c.id, c.sceneFile) := by
  induction cs generalizing cs' with
  | nil => cases renamed
  | cons c rest ih =>
    simp only [renameFirst] at renamed
    split at renamed
    · cases renamed
      rfl
    · obtain ⟨rest', renamed', rfl⟩ := Option.map_eq_some_iff.mp renamed
      rw [List.map_cons, List.map_cons, ih renamed']

theorem mem_of_renameFirst {cs cs' : List SceneCollectionRecord} (renamed : renameFirst id name cs = some cs') (member : c ∈ cs') :
    ∃ d ∈ cs, d.id = c.id ∧ d.sceneFile = c.sceneFile := by
  have listed := List.mem_map_of_mem (f := fun c : SceneCollectionRecord => (c.id, c.sceneFile)) member
  rw [map_renameFirst renamed] at listed
  obtain ⟨d, stored, same⟩ := List.mem_map.mp listed
  exact ⟨d, stored, congrArg Prod.fst same, congrArg Prod.snd same⟩

theorem Sound.rename (sound : s.Sound) (renamed : s.rename id name = some t) : t.Sound := by
  obtain ⟨cs, replaced, rfl⟩ := Option.map_eq_some_iff.mp renamed
  have keys := map_renameFirst replaced
  have files := congrArg (List.map Prod.snd) keys
  have ids := congrArg (List.map Prod.fst) keys
  rw [List.map_map, List.map_map] at files ids
  refine ⟨?_, files ▸ sound.ownFile, ids ▸ sound.ownId, ?_, ids ▸ sound.opened, ?_⟩
  · intro c member
    obtain ⟨d, stored, _, sameFile⟩ := mem_of_renameFirst replaced member
    exact sameFile ▸ sound.named d stored
  · intro c member
    obtain ⟨d, stored, sameId, _⟩ := mem_of_renameFirst replaced member
    exact sameId ▸ sound.known d stored
  · intro c member isActive
    obtain ⟨d, stored, sameId, sameFile⟩ := mem_of_renameFirst replaced member
    rw [← sameFile]
    exact sound.settled d stored (sameId.trans isActive)

/-! ### A record goes -/

/-- A removal leaves the files of the other collections. -/
theorem Sound.keeps_drop (sound : s.Sound) (stored : c ∈ s.collections) (stored' : d ∈ (s.drop c).collections) (kind : StoreKind) :
    Keeps s.files (s.drop c).files d.sceneFile kind := by
  obtain ⟨other, stored'⟩ := sound.ownId.of_map.mem_erase_iff.mp stored'
  -- the record that goes has a file of its own
  have apart : d.sceneFile ≠ c.sceneFile := fun same => other (sound.eq_of_file stored' stored same)
  exact keeps_delete (sound.named d stored') (sound.named c stored) apart

theorem Sound.drop (sound : s.Sound) (found : s.find id = some c) (inactive : id ≠ s.activeId) : (s.drop c).Sound := by
  obtain ⟨stored, named⟩ := mem_of_find found
  have sub : (s.drop c).collections.Sublist s.collections := List.erase_sublist
  refine ⟨?_, ?_, ?_, ?_, ?_, ?_⟩
  · exact fun d stored' => sound.named d (sub.mem stored')
  · exact sound.ownFile.sublist (sub.map _)
  · exact sound.ownId.sublist (sub.map _)
  · exact fun d stored' => sound.known d (sub.mem stored')
  · obtain ⟨a, stored', isActive, _⟩ := sound.active
    -- the active record stays
    have other : a ≠ c := by
      rintro rfl
      exact inactive (named.symm.trans isActive)
    exact List.mem_map.mpr ⟨a, (List.mem_erase_of_ne other).mpr stored', isActive⟩
  · intro d stored' isActive kind
    exact (sound.keeps_drop stored stored' kind).settled (sound.settled d (sub.mem stored') isActive kind)

/-- A load of the active collection makes the state sound. -/
theorem sound_loads {fallback : StoreKind → α} {hasSources : α → Bool} (named : ∀ c ∈ s.collections, WellNamed c.sceneFile) (ownFile : (s.collections.map (·.sceneFile)).Nodup)
    (ownId : (s.collections.map (·.id)).Nodup) (known : ∀ c ∈ s.collections, c.id ∈ s.issued)
    (opened : s.activeId ∈ s.collections.map (·.id)) : (s.loads fallback hasSources StoreKind.all).Sound := by
  have same : s.SameRecords (s.loads fallback hasSources StoreKind.all) := sameRecords_loads s StoreKind.all
  refine ⟨?_, ?_, ?_, ?_, ?_, ?_⟩
  · rw [same.collections]
    exact named
  · rw [same.collections]
    exact ownFile
  · rw [same.collections]
    exact ownId
  · rw [same.collections, same.issued]
    exact known
  · rw [same.collections, same.activeId]
    exact opened
  · rw [same.collections, same.activeId]
    intro c stored isActive kind
    have found := find_of_ownId ownId stored
    rw [isActive] at found
    have active : s.active = some c := by rw [active, found]
    exact settled_loads (named c stored) active (.inl kind.mem_all)

/-! ### A collection not opened yet -/

/-- None of the collection's stores loads. -/
def Unseen (s : SceneCollections α) (x : String) : Prop :=
  x ∈ s.issued ∧ ∀ c ∈ s.collections, c.id = x → ∀ kind : StoreKind, loadStore s.files (kind.rel c.sceneFile) = none

/-- Each record of the id was there before, and its files are as they were. -/
theorem Unseen.of_keeps (unseen : s.Unseen x) (issued : x ∈ t.issued)
    (kept : ∀ c ∈ t.collections, c.id = x → ∃ d ∈ s.collections, d.id = x ∧ d.sceneFile = c.sceneFile ∧
      ∀ kind, Keeps s.files t.files c.sceneFile kind) : t.Unseen x := by
  refine ⟨issued, ?_⟩
  intro c stored named kind
  obtain ⟨d, old, named', same, keeps⟩ := kept c stored named
  rw [(keeps kind).loadStore, ← same]
  exact unseen.2 d old named' kind

theorem Unseen.create (unseen : s.Unseen x) (fresh : id ∉ s.issued) (created : s.create name id = some p) : p.1.Unseen x := by
  obtain ⟨rel, _, record, after⟩ := create_cases created
  have issued : x ∈ p.1.issued := by
    rw [after]
    exact List.mem_cons_of_mem _ unseen.1
  apply unseen.of_keeps issued
  intro c stored isX
  rcases mem_of_create created stored with ⟨old, _⟩ | new
  · rw [after]
    exact ⟨c, old, isX, rfl, fun kind => .refl _ _ kind⟩
  · -- an unseen collection's id has been given out before
    rw [new, record] at isX
    obtain rfl : id = x := isX
    exact absurd unseen.1 fresh

/-- The copies go to names the collection does not have. -/
theorem Unseen.copies {source : String} {kinds : List StoreKind} (unseen : s.Unseen x) (sound : s.Sound) (named : WellNamed rel)
    (free : ∀ c ∈ s.collections, c.id = x → c.sceneFile ≠ rel) : Unseen { s with files := copies s.files source rel kinds } x := by
  apply unseen.of_keeps (t := { s with files := SceneCollections.copies s.files source rel kinds }) unseen.1
  intro c stored isX
  exact ⟨c, stored, isX, rfl, fun kind => keeps_copies (sound.named c stored) named (free c stored isX)⟩

theorem Unseen.drop (unseen : s.Unseen x) (sound : s.Sound) (stored : c ∈ s.collections) : (s.drop c).Unseen x := by
  apply unseen.of_keeps (t := s.drop c) unseen.1
  intro d stored' named
  exact ⟨d, List.mem_of_mem_erase stored', named, rfl, sound.keeps_drop stored stored'⟩

/-! ### A switch -/

section

variable [DecidableEq α] (fallback : StoreKind → α) (hasSources : α → Bool)

def reopened (s : SceneCollections α) (id : String) : SceneCollections α :=
  { s with activeId := id }

/-- The active collection is saved and another is loaded. -/
def switched (s : SceneCollections α) (id : String) : SceneCollections α :=
  (s.saveAll.reopened id).loadAll fallback hasSources

variable {fallback hasSources}

theorem switched_eq (s : SceneCollections α) (id : String) :
    s.switched fallback hasSources id = ((s.saves StoreKind.all).reopened id).loads fallback hasSources StoreKind.all :=
  rfl

theorem switch_cases {live : Bool} (ok : s.switch fallback hasSources id live = .ok t) :
    id = s.activeId ∧ t = s ∨ id ≠ s.activeId ∧ (∃ c, s.find id = some c) ∧ t = s.switched fallback hasSources id := by
  simp only [switch] at ok
  split at ok
  next same =>
    cases ok
    exact .inl ⟨same, rfl⟩
  next other =>
    split at ok
    · cases ok
    next c found =>
      split at ok
      · cases ok
      · cases ok
        exact .inr ⟨other, ⟨c, found⟩, rfl⟩

theorem sameRecords_switched (s : SceneCollections α) (id : String) :
    SameRecords (s.reopened id) (s.switched fallback hasSources id) := by
  have saved := sameRecords_saves s StoreKind.all
  have loaded : SameRecords ((s.saves StoreKind.all).reopened id) (s.switched fallback hasSources id) := by
    rw [switched_eq]
    exact sameRecords_loads _ StoreKind.all
  exact ⟨loaded.collections.trans saved.collections, loaded.activeId, loaded.issued.trans saved.issued⟩

/-- Between the save and the load the collection switched to is the active one. -/
theorem active_reopened (found : s.find id = some c) : ((s.saves StoreKind.all).reopened id).active = some c := by
  have there : ((s.saves StoreKind.all).reopened id).find ((s.saves StoreKind.all).reopened id).activeId = some c :=
    ((sameRecords_saves s StoreKind.all).find id).trans found
  rw [active, there]

theorem Sound.switched (sound : s.Sound) (found : s.find id = some c) : (s.switched fallback hasSources id).Sound := by
  obtain ⟨stored, named⟩ := mem_of_find found
  have saved := sound.saves StoreKind.all
  have same := sameRecords_saves s StoreKind.all
  -- the saves change no record, and the load settles the one opened
  have opened : id ∈ (s.saves StoreKind.all).collections.map (·.id) := by
    rw [same.collections]
    exact List.mem_map.mpr ⟨c, stored, named⟩
  rw [switched_eq]
  exact sound_loads (s := (s.saves StoreKind.all).reopened id) saved.named saved.ownFile saved.ownId saved.known opened

/-- A switch leaves the files of the collections it is not about. -/
theorem Sound.keeps_switched (sound : s.Sound) (found : s.find id = some c) (stored : d ∈ s.collections) (inactive : d.id ≠ s.activeId)
    (other : d.id ≠ id) (kind : StoreKind) : Keeps s.files (s.switched fallback hasSources id).files d.sceneFile kind := by
  obtain ⟨stored', same⟩ := mem_of_find found
  -- the save writes the active collection's files and the load touches those of the one opened
  have saved := sound.keeps_saves StoreKind.all (sound.named d stored) (sound.file_ne_active stored inactive) kind
  have apart : d.sceneFile ≠ c.sceneFile := by
    intro sameFile
    rw [sound.eq_of_file stored stored' sameFile] at other
    exact other same
  rw [switched_eq]
  exact saved.trans (keeps_loads (sound.named d stored) (sound.named c stored') (active_reopened found) apart)

/-- What a switch brings up. -/
theorem Sound.memory_switched (sound : s.Sound) (found : s.find id = some c) (inactive : id ≠ s.activeId) (kind : StoreKind) :
    (s.switched fallback hasSources id).memory kind = comesUp fallback hasSources kind (loadStore s.files (kind.rel c.sceneFile)) := by
  obtain ⟨stored, rfl⟩ := mem_of_find found
  have saved := sound.keeps_saves StoreKind.all (sound.named c stored) (sound.file_ne_active stored inactive) kind
  rw [← saved.loadStore, switched_eq]
  exact memory_loads (sound.named c stored) (active_reopened found) (by decide) kind.mem_all

/-! ### A removal -/

/-- Only an inactive collection's record is dropped: the active one's after a switch. -/
theorem Sound.remove_cases {live : Bool} (sound : s.Sound) (ok : s.remove fallback hasSources id live = .ok t) :
    ∃ w record, (id ≠ s.activeId ∧ w = s ∨ ∃ c, s.find c.id = some c ∧ c.id ≠ s.activeId ∧ w = s.switched fallback hasSources c.id) ∧
      w.find id = some record ∧ id ≠ w.activeId ∧ t = w.drop record := by
  simp only [remove] at ok
  split at ok
  · cases ok
  next record found =>
    split at ok
    · cases ok
    next several =>
      split at ok
      next isActive =>
        obtain ⟨d, other, stored, different⟩ := sound.exists_other (mem_of_find found).1 several id
        rw [other] at ok
        simp only at ok
        split at ok
        · cases ok
        next w switching =>
          split at ok
          · cases ok
          next record found' =>
            cases ok
            rcases switch_cases switching with ⟨same, _⟩ | ⟨inactive, _, rfl⟩
            -- the collection switched to is not the one to be removed
            · exact absurd (same.trans isActive.symm) different
            · refine ⟨_, record, .inr ⟨d, find_of_ownId sound.ownId stored, inactive, rfl⟩, found', ?_, rfl⟩
              rw [(sameRecords_switched s d.id).activeId]
              exact Ne.symm different
      next inactive =>
        cases ok
        exact ⟨s, record, .inl ⟨inactive, rfl⟩, found, inactive, rfl⟩

/-! ### A new record's step -/

theorem create_step_cases (step : s.step fallback hasSources (.create name id) = some t) :
    id ∉ s.issued ∧ ∃ record, s.create name id = some (t, record) := by
  simp only [SceneCollections.step] at step
  split at step
  · cases step
  next fresh =>
    obtain ⟨⟨t, record⟩, created, rfl⟩ := Option.map_eq_some_iff.mp step
    exact ⟨fresh, record, created⟩

/-- What is saved before a copy. -/
def flushedKinds (s : SceneCollections α) (source : SceneCollectionRecord) : List StoreKind :=
  if source.id = s.activeId then StoreKind.all else []

theorem flushed_eq (s : SceneCollections α) (source : SceneCollectionRecord) : s.flushed source = s.saves (s.flushedKinds source) := by
  simp only [flushed, flushedKinds]
  split <;> rfl

theorem duplicate_cases {sourceId : String} (step : s.step fallback hasSources (.duplicate sourceId name id) = some t) :
    id ∉ s.issued ∧ (s.find sourceId = none ∧ t = s ∨ ∃ source p, s.find sourceId = some source ∧
      (s.flushed source).create name id = some p ∧
      t = { p.1 with files := copies p.1.files source.sceneFile p.2.sceneFile StoreKind.all }) := by
  simp only [SceneCollections.step] at step
  split at step
  · cases step
  next fresh =>
    obtain ⟨answer, answered, after⟩ := Option.map_eq_some_iff.mp step
    simp only [duplicate] at answered
    cases found : s.find sourceId with
    | none =>
      rw [found] at answered
      cases answered
      exact ⟨fresh, .inl ⟨rfl, after.symm⟩⟩
    | some source =>
      rw [found] at answered
      obtain ⟨p, created, rfl⟩ := Option.map_eq_some_iff.mp answered
      exact ⟨fresh, .inr ⟨source, p, rfl, created, after.symm⟩⟩

/-! ### The steps -/

theorem Sound.step {i : CollectionStep α} (sound : s.Sound) (step : s.step fallback hasSources i = some t) : t.Sound := by
  cases i with
  | create name id =>
    obtain ⟨fresh, record, created⟩ := create_step_cases step
    exact sound.create fresh created
  | duplicate sourceId name id =>
    obtain ⟨fresh, ⟨_, rfl⟩ | ⟨source, p, found, created, rfl⟩⟩ := duplicate_cases step
    · exact sound
    · have flushed := sound.saves (s.flushedKinds source)
      have same := sameRecords_saves s (s.flushedKinds source)
      rw [← flushed_eq] at flushed same
      obtain ⟨rel, named, record, after⟩ := create_cases created
      -- the copy is a new record of the flushed state
      have unissued : id ∉ (s.flushed source).issued := same.issued ▸ fresh
      have made := flushed.create unissued created
      have wellNamed : WellNamed p.2.sceneFile := record ▸ wellNamed_of_uniqueSceneFileForName named
      apply made.copies wellNamed
      intro c stored isActive
      rcases mem_of_create created stored with ⟨_, apart⟩ | new
      · exact apart
      · -- the new record is not the active one
        rw [new, record, after] at isActive
        exact absurd isActive (flushed.inactive_of_fresh unissued)
  | rename id name =>
    rw [← Option.some.inj step]
    cases renamed : s.rename id name with
    | none => exact sound
    | some t => exact sound.rename renamed
  | switch id live =>
    rw [← Option.some.inj step]
    split
    next t ok =>
      rcases switch_cases ok with ⟨_, rfl⟩ | ⟨_, ⟨c, found⟩, rfl⟩
      · exact sound
      · exact sound.switched found
    · exact sound
  | remove id live =>
    rw [← Option.some.inj step]
    split
    next t ok =>
      obtain ⟨w, record, before, found, inactive, rfl⟩ := sound.remove_cases ok
      rcases before with ⟨_, rfl⟩ | ⟨c, found', _, rfl⟩
      · exact sound.drop found inactive
      · exact (sound.switched found').drop found inactive
    · exact sound
  | edit kind state =>
    rw [← Option.some.inj step]
    exact sound.of_sameRecords ⟨rfl, rfl, rfl⟩ sound.settled
  | save kind =>
    rw [← Option.some.inj step]
    exact sound.saves [kind]

/-! ### Steps of an unseen collection -/

theorem Unseen.saves (unseen : s.Unseen x) (sound : s.Sound) (inactive : x ≠ s.activeId) (kinds : List StoreKind) :
    (s.saves kinds).Unseen x := by
  have same := sameRecords_saves s kinds
  apply unseen.of_keeps (same.issued ▸ unseen.1)
  intro c stored named
  rw [same.collections] at stored
  exact ⟨c, stored, named, rfl, sound.keeps_saves kinds (sound.named c stored) (sound.file_ne_active stored (named ▸ inactive))⟩

theorem Unseen.switched (unseen : s.Unseen x) (sound : s.Sound) (inactive : x ≠ s.activeId) (found : s.find id = some c) (other : x ≠ id) :
    (s.switched fallback hasSources id).Unseen x := by
  have same : (s.reopened id).SameRecords (s.switched fallback hasSources id) := sameRecords_switched s id
  apply unseen.of_keeps (same.issued ▸ unseen.1)
  intro d stored named
  rw [same.collections] at stored
  exact ⟨d, stored, named, rfl, sound.keeps_switched found stored (named ▸ inactive) (named ▸ other)⟩

/-- What a switch brings up of a collection none of whose stores loads. -/
theorem Unseen.memory_switched (unseen : s.Unseen id) (sound : s.Sound) (found : s.find id = some c) (inactive : id ≠ s.activeId)
    (kind : StoreKind) : (s.switched fallback hasSources id).memory kind = fallback kind := by
  obtain ⟨stored, named⟩ := mem_of_find found
  rw [sound.memory_switched found inactive, unseen.2 c stored named]
  rfl

/-- A step leaves the collection unseen or opens it, and then nothing is loaded. -/
theorem Unseen.step {i : CollectionStep α} (unseen : s.Unseen x) (sound : s.Sound) (inactive : x ≠ s.activeId)
    (step : s.step fallback hasSources i = some t) :
    x ≠ t.activeId ∧ t.Unseen x ∨ x = t.activeId ∧ ∀ kind, t.memory kind = fallback kind := by
  cases i with
  | create name id =>
    left
    obtain ⟨fresh, record, created⟩ := create_step_cases step
    have later := unseen.create fresh created
    obtain ⟨rel, _, _, after⟩ := create_cases created
    obtain rfl : t = _ := after
    exact ⟨inactive, later⟩
  | duplicate sourceId name id =>
    left
    obtain ⟨fresh, ⟨_, rfl⟩ | ⟨source, p, found, created, rfl⟩⟩ := duplicate_cases step
    · exact ⟨inactive, unseen⟩
    · have flushed := sound.saves (s.flushedKinds source)
      have same := sameRecords_saves s (s.flushedKinds source)
      have saved := unseen.saves sound inactive (s.flushedKinds source)
      rw [← flushed_eq] at flushed same saved
      obtain ⟨rel, named, record, after⟩ := create_cases created
      have unissued : id ∉ (s.flushed source).issued := same.issued ▸ fresh
      have made := saved.create unissued created
      have sameActive : p.1.activeId = s.activeId := (congrArg SceneCollections.activeId after).trans same.activeId
      have wellNamed : WellNamed p.2.sceneFile := record ▸ wellNamed_of_uniqueSceneFileForName named
      refine ⟨sameActive ▸ inactive, made.copies (flushed.create unissued created) wellNamed ?_⟩
      intro c stored isX
      rcases mem_of_create created stored with ⟨_, apart⟩ | new
      · exact apart
      · rw [new, record] at isX
        obtain rfl : id = x := isX
        exact absurd unseen.1 fresh
  | rename id name =>
    left
    rw [← Option.some.inj step]
    cases renamed : s.rename id name with
    | none => exact ⟨inactive, unseen⟩
    | some t =>
      obtain ⟨cs, replaced, rfl⟩ := Option.map_eq_some_iff.mp renamed
      refine ⟨inactive, unseen.of_keeps unseen.1 ?_⟩
      intro c stored isX
      obtain ⟨d, old, sameId, sameFile⟩ := mem_of_renameFirst replaced stored
      exact ⟨d, old, sameId.trans isX, sameFile, fun kind => .refl _ _ kind⟩
  | switch id live =>
    rw [← Option.some.inj step]
    split
    next t ok =>
      rcases switch_cases ok with ⟨_, rfl⟩ | ⟨other, ⟨c, found⟩, rfl⟩
      · exact .inl ⟨inactive, unseen⟩
      · rw [(sameRecords_switched s id).activeId]
        -- the switch opens the unseen collection, or another
        by_cases isX : x = id
        · subst isX
          exact .inr ⟨rfl, unseen.memory_switched sound found inactive⟩
        · exact .inl ⟨isX, unseen.switched sound inactive found isX⟩
    · exact .inl ⟨inactive, unseen⟩
  | remove id live =>
    rw [← Option.some.inj step]
    split
    next t ok =>
      obtain ⟨w, record, before, found, _, rfl⟩ := sound.remove_cases ok
      rcases before with ⟨_, rfl⟩ | ⟨c, found', _, rfl⟩
      · exact .inl ⟨inactive, unseen.drop sound (mem_of_find found).1⟩
      -- the removal of the active collection opened another first
      · have activeId : (s.switched fallback hasSources c.id).activeId = c.id := (sameRecords_switched s c.id).activeId
        by_cases isX : x = c.id
        · subst isX
          exact .inr ⟨activeId.symm, unseen.memory_switched sound found' inactive⟩
        · left
          refine ⟨?_, (unseen.switched sound inactive found' isX).drop (sound.switched found') (mem_of_find found).1⟩
          intro same
          exact isX (same.trans activeId)
    · exact .inl ⟨inactive, unseen⟩
  | edit kind state =>
    rw [← Option.some.inj step]
    exact .inl ⟨inactive, unseen⟩
  | save kind =>
    rw [← Option.some.inj step]
    have same := sameRecords_saves s [kind]
    exact .inl ⟨same.activeId ▸ inactive, unseen.saves sound inactive [kind]⟩

end

end SceneCollections

end Braidcast.Scene
