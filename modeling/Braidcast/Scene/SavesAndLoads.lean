import Braidcast.Scene.Stores

/-!
# The stores of the active collection

A save of the active collection's stores, a load of them and a copy of a collection's stores,
each as the fold over the kinds of stores that it is.
-/
namespace Braidcast.Scene

open Lib Multistream

namespace SceneCollections

variable {α : Type} {s t u : SceneCollections α} {fallback : StoreKind → α} {hasSources : α → Bool}
  {a c : SceneCollectionRecord} {kind kind' : StoreKind} {kinds : List StoreKind} {rel : String}

/-! ### The records -/

/-- The index is the same. -/
structure SameRecords (s t : SceneCollections α) : Prop where
  collections : t.collections = s.collections
  activeId : t.activeId = s.activeId
  issued : t.issued = s.issued

theorem SameRecords.refl (s : SceneCollections α) : s.SameRecords s :=
  ⟨rfl, rfl, rfl⟩

theorem SameRecords.trans (first : s.SameRecords t) (second : t.SameRecords u) : s.SameRecords u :=
  ⟨second.collections.trans first.collections, second.activeId.trans first.activeId, second.issued.trans first.issued⟩

theorem SameRecords.find (same : s.SameRecords t) (id : String) : t.find id = s.find id := by
  rw [SceneCollections.find, same.collections]
  rfl

theorem SameRecords.active (same : s.SameRecords t) : t.active = s.active := by
  rw [SceneCollections.active, same.activeId, same.find, same.collections]
  rfl

theorem activeRel_of_active (active : s.active = some a) (kind : StoreKind) : s.activeRel kind = kind.rel a.sceneFile := by
  rw [activeRel, active]

/-! ### Saves -/

/-- What the collection has in a store: of the active one the state in memory, unless saving
it is held off. -/
def content [DecidableEq α] (s : SceneCollections α) (c : SceneCollectionRecord) (kind : StoreKind) : Option α :=
  if c.id = s.activeId ∧ s.hold kind ≠ some (s.memory kind) then some (s.memory kind) else loadStore s.files (kind.rel c.sceneFile)

/-- The stores are saved one after another. -/
def saves [DecidableEq α] (s : SceneCollections α) (kinds : List StoreKind) : SceneCollections α :=
  kinds.foldl save s

section

variable [DecidableEq α]

theorem sameRecords_save (s : SceneCollections α) (kind : StoreKind) : s.SameRecords (s.save kind) := by
  simp only [save]
  split
  · exact .refl s
  · exact ⟨rfl, rfl, rfl⟩

theorem memory_save (s : SceneCollections α) (kind : StoreKind) : (s.save kind).memory = s.memory := by
  simp only [save]
  split <;> rfl

theorem keeps_save (named : WellNamed rel) (named' : WellNamed a.sceneFile) (active : s.active = some a)
    (apart : rel ≠ a.sceneFile ∨ kind ≠ kind') : Keeps s.files (s.save kind').files rel kind := by
  simp only [save]
  split
  · exact .refl _ rel kind
  · rw [activeRel_of_active active]
    exact keeps_saveStore named named' apart

theorem settled_save (settled : Settled s.files (s.activeRel kind)) : Settled (s.save kind).files (s.activeRel kind) := by
  simp only [save]
  split
  · exact settled
  · exact settled_saveStore

theorem loadStore_save (active : s.active = some a) (isActive : a.id = s.activeId) (kind : StoreKind) :
    loadStore (s.save kind).files (kind.rel a.sceneFile) = s.content a kind := by
  simp only [save, content]
  split
  next held => rw [if_neg (fun free => free.2 held)]
  next free =>
    rw [if_pos ⟨isActive, free⟩, activeRel_of_active active]
    exact loadStore_saveStore

theorem content_save (named : WellNamed a.sceneFile) (active : s.active = some a) (isActive : a.id = s.activeId)
    (kind kind' : StoreKind) : (s.save kind').content a kind = s.content a kind := by
  by_cases held : s.hold kind' = some (s.memory kind')
  · rw [save, if_pos held]
  · by_cases own : kind = kind'
    · subst own
      have saved : (s.save kind).hold kind = none := by
        rw [save, if_neg held]
        exact if_pos rfl
      have there : a.id = (s.save kind).activeId := isActive.trans (sameRecords_save s kind).activeId.symm
      have ready : (s.save kind).hold kind ≠ some ((s.save kind).memory kind) := by
        rw [saved]
        exact Option.some_ne_none _ ∘ Eq.symm
      rw [content, if_pos ⟨there, ready⟩, memory_save, content, if_pos ⟨isActive, held⟩]
    · have other : (s.save kind').hold kind = s.hold kind := by
        rw [save, if_neg held]
        exact if_neg own
      rw [content, other, memory_save, (sameRecords_save s kind').activeId, (keeps_save named named active (.inr own)).loadStore, content]

theorem sameRecords_saves (s : SceneCollections α) (kinds : List StoreKind) : s.SameRecords (s.saves kinds) := by
  induction kinds generalizing s with
  | nil => exact .refl s
  | cons k rest ih => exact (sameRecords_save s k).trans (ih (s.save k))

theorem keeps_saves (named : WellNamed rel) (named' : WellNamed a.sceneFile) (active : s.active = some a)
    (apart : rel ≠ a.sceneFile ∨ kind ∉ kinds) : Keeps s.files (s.saves kinds).files rel kind := by
  induction kinds generalizing s with
  | nil => exact .refl _ rel kind
  | cons k rest ih =>
    have here : rel ≠ a.sceneFile ∨ kind ≠ k := apart.imp_right fun missing same => missing (same ▸ List.mem_cons_self)
    have later : rel ≠ a.sceneFile ∨ kind ∉ rest := apart.imp_right fun missing member => missing (List.mem_cons_of_mem _ member)
    have same := sameRecords_save s k
    exact (keeps_save named named' active here).trans (ih (same.active.trans active) later)

theorem settled_saves (named : WellNamed a.sceneFile) (active : s.active = some a)
    (settled : ∀ kind : StoreKind, Settled s.files (kind.rel a.sceneFile)) (kind : StoreKind) :
    Settled (s.saves kinds).files (kind.rel a.sceneFile) := by
  induction kinds generalizing s with
  | nil => exact settled kind
  | cons k rest ih =>
    apply ih (s := s.save k) ((sameRecords_save s k).active.trans active)
    intro kind
    by_cases own : kind = k
    · subst own
      have before := settled kind
      rw [← activeRel_of_active active] at before ⊢
      exact settled_save before
    · exact (keeps_save named named active (.inr own)).settled (settled kind)

theorem loadStore_saves (named : WellNamed a.sceneFile) (active : s.active = some a) (isActive : a.id = s.activeId)
    (member : kind ∈ kinds) : loadStore (s.saves kinds).files (kind.rel a.sceneFile) = s.content a kind := by
  induction kinds generalizing s with
  | nil => cases member
  | cons k rest ih =>
    have same := sameRecords_save s k
    by_cases later : kind ∈ rest
    · rw [← content_save named active isActive kind k]
      exact ih (same.active.trans active) (isActive.trans same.activeId.symm) later
    · have here : kind = k := (List.mem_cons.mp member).resolve_right later
      subst here
      have kept : Keeps (s.save kind).files ((s.save kind).saves rest).files a.sceneFile kind :=
        keeps_saves named named (same.active.trans active) (.inr later)
      exact kept.loadStore.trans (loadStore_save active isActive kind)

end

/-! ### Loads -/

theorem sameRecords_load (s : SceneCollections α) (kind : StoreKind) : s.SameRecords (s.load fallback hasSources kind) :=
  ⟨rfl, rfl, rfl⟩

theorem keeps_load (named : WellNamed rel) (named' : WellNamed a.sceneFile) (active : s.active = some a)
    (apart : rel ≠ a.sceneFile ∨ kind ≠ kind') : Keeps s.files (s.load fallback hasSources kind').files rel kind := by
  simp only [load]
  rw [activeRel_of_active active]
  exact keeps_restoreStore named named' apart

theorem memory_load (s : SceneCollections α) (kind : StoreKind) :
    (s.load fallback hasSources kind).memory kind = comesUp fallback hasSources kind (loadStore s.files (s.activeRel kind)) :=
  if_pos rfl

theorem memory_load_of_ne (other : kind ≠ kind') : (s.load fallback hasSources kind').memory kind = s.memory kind :=
  if_neg other

/-- The stores are loaded one after another. -/
def loads (fallback : StoreKind → α) (hasSources : α → Bool) (s : SceneCollections α) (kinds : List StoreKind) : SceneCollections α :=
  kinds.foldl (fun s kind => s.load fallback hasSources kind) s

theorem loadAll_eq (s : SceneCollections α) : s.loadAll fallback hasSources = s.loads fallback hasSources StoreKind.all :=
  rfl

theorem sameRecords_loads (s : SceneCollections α) (kinds : List StoreKind) : s.SameRecords (s.loads fallback hasSources kinds) := by
  induction kinds generalizing s with
  | nil => exact .refl s
  | cons k rest ih => exact (sameRecords_load s k).trans (ih (s.load fallback hasSources k))

theorem keeps_loads (named : WellNamed rel) (named' : WellNamed a.sceneFile) (active : s.active = some a)
    (other : rel ≠ a.sceneFile) : Keeps s.files (s.loads fallback hasSources kinds).files rel kind := by
  induction kinds generalizing s with
  | nil => exact .refl _ rel kind
  | cons k rest ih =>
    have same : s.SameRecords (s.load fallback hasSources k) := sameRecords_load s k
    exact (keeps_load named named' active (.inl other)).trans (ih (same.active.trans active))

theorem memory_loads_of_not_mem (missing : kind ∉ kinds) : (s.loads fallback hasSources kinds).memory kind = s.memory kind := by
  induction kinds generalizing s with
  | nil => rfl
  | cons k rest ih =>
    have other : kind ≠ k := fun same => missing (same ▸ List.mem_cons_self)
    exact (ih fun member => missing (List.mem_cons_of_mem _ member)).trans (memory_load_of_ne other)

theorem memory_loads (named : WellNamed a.sceneFile) (active : s.active = some a) (once : kinds.Nodup) (member : kind ∈ kinds) :
    (s.loads fallback hasSources kinds).memory kind = comesUp fallback hasSources kind (loadStore s.files (kind.rel a.sceneFile)) := by
  induction kinds generalizing s with
  | nil => cases member
  | cons k rest ih =>
    have same : s.SameRecords (s.load fallback hasSources k) := sameRecords_load s k
    obtain ⟨missing, once⟩ := List.nodup_cons.mp once
    by_cases here : kind = k
    · subst here
      rw [← activeRel_of_active active]
      exact (memory_loads_of_not_mem missing).trans (memory_load s kind)
    · have kept : Keeps s.files (s.load fallback hasSources k).files a.sceneFile kind := keeps_load named named active (.inr here)
      rw [← kept.loadStore]
      exact ih (same.active.trans active) once ((List.mem_cons.mp member).resolve_left here)

theorem settled_loads (named : WellNamed a.sceneFile) (active : s.active = some a)
    (some : kind ∈ kinds ∨ Settled s.files (kind.rel a.sceneFile)) :
    Settled (s.loads fallback hasSources kinds).files (kind.rel a.sceneFile) := by
  induction kinds generalizing s with
  | nil => exact some.resolve_left List.not_mem_nil
  | cons k rest ih =>
    have same : s.SameRecords (s.load fallback hasSources k) := sameRecords_load s k
    apply ih (s := s.load fallback hasSources k) (same.active.trans active)
    by_cases here : kind = k
    · subst here
      right
      rw [← activeRel_of_active active]
      exact settled_restoreStore
    · rcases some with member | settled
      · exact .inl ((List.mem_cons.mp member).resolve_left here)
      · exact .inr ((keeps_load named named active (.inr here)).settled settled)

/-! ### Copies -/

/-- The stores are copied one after another. -/
def copies (files : Files String (Content α)) (source target : String) (kinds : List StoreKind) : Files String (Content α) :=
  kinds.foldl (fun files kind => copyRel files (kind.rel source) (kind.rel target)) files

variable {files : Files String (Content α)} {source target name : String}

theorem read_copies_of_ne (other : ∀ k ∈ kinds, name ≠ k.rel target) : (copies files source target kinds).read name = files.read name := by
  induction kinds generalizing files with
  | nil => rfl
  | cons k rest ih =>
    have here : (copyRel files (k.rel source) (k.rel target)).read name = files.read name := read_copyRel_of_ne (other k List.mem_cons_self)
    exact (ih fun k' member => other k' (List.mem_cons_of_mem _ member)).trans here

theorem keeps_copies (named : WellNamed rel) (named' : WellNamed target) (other : rel ≠ target) :
    Keeps files (copies files source target kinds) rel kind :=
  fun backup => read_copies_of_ne fun _ _ => place_ne named named' (.inl other) backup false

/-- The copies of the stores load as the stores do, where nothing is in their place. -/
theorem loadStore_copies (named : WellNamed source) (named' : WellNamed target) (other : source ≠ target) (once : kinds.Nodup)
    (member : kind ∈ kinds) (settled : Settled files (kind.rel source)) (free : files.read (kind.rel target) = none)
    (nothing : loadStore files (kind.rel target) = none) :
    loadStore (copies files source target kinds) (kind.rel target) = loadStore files (kind.rel source) := by
  have main : (copies files source target kinds).read (kind.rel target) = files.read (kind.rel source) := by
    clear settled nothing
    induction kinds generalizing files with
    | nil => cases member
    | cons k rest ih =>
      obtain ⟨missing, once⟩ := List.nodup_cons.mp once
      by_cases here : kind = k
      · subst here
        have still : (copies (copyRel files (kind.rel source) (kind.rel target)) source target rest).read (kind.rel target) =
            (copyRel files (kind.rel source) (kind.rel target)).read (kind.rel target) := by
          apply read_copies_of_ne
          intro k' later
          have different : kind ≠ k' := by
            rintro rfl
            exact missing later
          exact place_ne named' named' (.inr different) false false
        exact still.trans (read_copyRel free)
      · have sourceStays : Keeps files (copyRel files (k.rel source) (k.rel target)) source kind := keeps_copyRel named named' (.inl other)
        have targetStays : Keeps files (copyRel files (k.rel source) (k.rel target)) target kind := keeps_copyRel named' named' (.inr here)
        rw [← sourceStays.main]
        exact ih once ((List.mem_cons.mp member).resolve_left here) (targetStays.main.trans free)
  have backup : (copies files source target kinds).read (bak (kind.rel target)) = files.read (bak (kind.rel target)) := by
    apply read_copies_of_ne
    intro k _ same
    have asPlaces : place target kind true = place target k false := same
    cases (place_inj named' named' asPlaces).2.2
  have unparsed : createFromJsonFile (files.read (bak (kind.rel target))) = none := by
    rw [loadStore_eq, free] at nothing
    exact nothing
  rw [loadStore_eq, main, backup, unparsed, Option.or_none, settled]

end SceneCollections

end Braidcast.Scene
