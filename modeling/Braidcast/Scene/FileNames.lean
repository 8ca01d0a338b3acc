import Braidcast.Lib.Prefixed
import Braidcast.Scene.Collections

/-!
# Names of the files a collection owns

A scene file as the application names it ends in ".json" and in the ending of no other store,
so any file of a collection gives away the scene file it belongs to.
-/
namespace Braidcast.Scene

open Lib Multistream

/-- What a store's file has before its extension. -/
def StoreKind.mark : StoreKind → List Char
  | .scene => []
  | .bindings => ".output_bindings".toList
  | .links => ".scene_links".toList

theorem mark_scene : StoreKind.scene.mark = [] :=
  rfl

/-- A ".json" file that has not the ending of another store's file. -/
def WellNamed (sceneRel : String) : Prop :=
  ∃ base : List Char, sceneRel.toList = base ++ ".json".toList ∧ ∀ kind : StoreKind, kind ≠ .scene → ¬ kind.mark <:+ base

def tail (backup : Bool) : List Char :=
  if backup then ".bak".toList else []

/-- A file of a store of the collection. -/
def place (sceneRel : String) (kind : StoreKind) (backup : Bool) : String :=
  if backup then bak (kind.rel sceneRel) else kind.rel sceneRel

variable {base : List Char}

theorem toList_stripSuffix {s suffix : String} (ends : s.toList = base ++ suffix.toList) :
    (stripSuffix s suffix).toList = base := by
  have suffixed : suffix.toList.isSuffixOf s.toList = true := by
    rw [List.isSuffixOf_iff_suffix, ends]
    exact List.suffix_append _ _
  rw [stripSuffix, if_pos suffixed, String.toList_ofList, ends, List.length_append, Nat.add_sub_cancel, List.take_left]

theorem toList_rel {sceneRel : String} (named : sceneRel.toList = base ++ ".json".toList) (kind : StoreKind) :
    (kind.rel sceneRel).toList = base ++ kind.mark ++ ".json".toList := by
  cases kind with
  | scene =>
    rw [StoreKind.rel, mark_scene, List.append_nil]
    exact named
  | bindings =>
    have ending : ".output_bindings.json".toList = StoreKind.bindings.mark ++ ".json".toList := by decide
    rw [StoreKind.rel, bindingsRelFor, String.toList_append, toList_stripSuffix named, ending, List.append_assoc]
  | links =>
    have ending : ".scene_links.json".toList = StoreKind.links.mark ++ ".json".toList := by decide
    rw [StoreKind.rel, sceneLinksRelFor, String.toList_append, toList_stripSuffix named, ending, List.append_assoc]

theorem toList_place {sceneRel : String} (named : sceneRel.toList = base ++ ".json".toList) (kind : StoreKind)
    (backup : Bool) : (place sceneRel kind backup).toList = base ++ kind.mark ++ ".json".toList ++ tail backup := by
  cases backup with
  | false =>
    have plain : place sceneRel kind false = kind.rel sceneRel := rfl
    have nothing : tail false = [] := rfl
    rw [plain, nothing, List.append_nil, toList_rel named]
  | true =>
    have backedUp : place sceneRel kind true = kind.rel sceneRel ++ ".bak" := rfl
    have ending : tail true = ".bak".toList := rfl
    rw [backedUp, String.toList_append, toList_rel named, ending]

/-- The last character tells a backup. -/
theorem tail_inj {front front' : List Char} {backup backup' : Bool}
    (same : front ++ ".json".toList ++ tail backup = front' ++ ".json".toList ++ tail backup') : backup = backup' := by
  have last : ∀ (front : List Char) (backup : Bool), (front ++ ".json".toList ++ tail backup).getLast? =
      some (if backup then 'k' else 'n') := by
    intro front backup
    rw [List.append_assoc, List.getLast?_append]
    cases backup with
    | false =>
      have ending : (".json".toList ++ tail false).getLast? = some 'n' := by decide
      rw [ending]
      exact Option.some_or
    | true =>
      have ending : (".json".toList ++ tail true).getLast? = some 'k' := by decide
      rw [ending]
      exact Option.some_or
  have lasts := congrArg List.getLast? same
  rw [last, last] at lasts
  revert lasts
  cases backup <;> cases backup' <;> decide

variable {kind kind' : StoreKind}

/-- Of two marks at the end of one list, one is the other or there is none. -/
theorem mark_suffix (suffix : kind.mark <:+ kind'.mark) : kind = kind' ∨ kind = .scene := by
  have decided := List.isSuffixOf_iff_suffix.mpr suffix
  revert decided
  cases kind <;> cases kind' <;> decide

theorem mark_inj {base base' : List Char} (plain : ∀ kind : StoreKind, kind ≠ .scene → ¬ kind.mark <:+ base)
    (plain' : ∀ kind : StoreKind, kind ≠ .scene → ¬ kind.mark <:+ base') (same : base ++ kind.mark = base' ++ kind'.mark) :
    kind = kind' := by
  have here : kind.mark <:+ base' ++ kind'.mark := same ▸ List.suffix_append base kind.mark
  rcases List.suffix_or_suffix_of_suffix here (List.suffix_append base' kind'.mark) with shorter | longer
  · rcases mark_suffix shorter with equal | scene
    · exact equal
    · by_contra apart
      subst scene
      have marked : base = base' ++ kind'.mark := by rw [← same, mark_scene, List.append_nil]
      exact plain kind' (Ne.symm apart) (marked ▸ List.suffix_append _ _)
  · rcases mark_suffix longer with equal | scene
    · exact equal.symm
    · by_contra apart
      subst scene
      have marked : base' = base ++ kind.mark := by rw [same, mark_scene, List.append_nil]
      exact plain' kind apart (marked ▸ List.suffix_append _ _)

/-- A file's name tells the collection, the store and whether it is a backup. -/
theorem place_inj {sceneRel sceneRel' : String} {backup backup' : Bool} (named : WellNamed sceneRel)
    (named' : WellNamed sceneRel') (same : place sceneRel kind backup = place sceneRel' kind' backup') :
    sceneRel = sceneRel' ∧ kind = kind' ∧ backup = backup' := by
  obtain ⟨base, spelled, plain⟩ := named
  obtain ⟨base', spelled', plain'⟩ := named'
  have lists := congrArg String.toList same
  rw [toList_place spelled, toList_place spelled'] at lists
  obtain rfl := tail_inj lists
  have marked := List.append_cancel_right (List.append_cancel_right lists)
  obtain rfl := mark_inj plain plain' marked
  obtain rfl := List.append_cancel_right marked
  exact ⟨String.toList_inj.mp (spelled.trans spelled'.symm), rfl, rfl⟩

/-! ### The names `UniqueSceneFileForName` makes -/

theorem toLower_ne_dot {c : Char} (alnum : c.isAlphanum = true) : '.' ≠ c.toLower := by
  intro same
  by_cases upper : c.val ≥ 'A'.val ∧ c.val ≤ 'Z'.val
  · have value := congrArg Char.val same
    unfold Char.toLower at value
    rw [dif_pos upper] at value
    have number := congrArg UInt32.toNat value
    have low := UInt32.le_iff_toNat_le.mp upper.1
    have high := UInt32.le_iff_toNat_le.mp upper.2
    simp at number low high
    omega
  · have still : c.toLower = c := by
      unfold Char.toLower
      rw [dif_neg upper]
    rw [still] at same
    subst same
    exact absurd alnum (by decide)

theorem dot_not_mem_slugRuns (lastHyphen : Bool) (cs : List Char) : '.' ∉ slugRuns lastHyphen cs := by
  induction cs generalizing lastHyphen with
  | nil => exact List.not_mem_nil
  | cons c rest ih =>
    simp only [slugRuns]
    split
    next alnum =>
      intro member
      rcases List.mem_cons.mp member with same | later
      · exact toLower_ne_dot alnum same
      · exact ih false later
    · split
      · exact ih true
      · intro member
        rcases List.mem_cons.mp member with same | later
        · exact absurd same (by decide)
        · exact ih true later

theorem dot_not_mem_slugify (name : String) : '.' ∉ slugify name := by
  simp only [slugify]
  split
  · decide
  · intro member
    rw [List.mem_reverse] at member
    have inside := List.mem_reverse.mp ((List.dropWhile_sublist _).mem member)
    exact dot_not_mem_slugRuns false name.toList ((List.dropWhile_sublist _).mem inside)

theorem toList_sceneFileFor (name : String) (suffix : Nat) : (SceneCollections.sceneFileFor name suffix).toList =
    "scenes/".toList ++ slugify name ++ (if suffix = 0 then [] else '-' :: (Nat.repr (suffix + 1)).toList) ++ ".json".toList :=
  String.toList_ofList

theorem wellNamed_sceneFileFor (name : String) (suffix : Nat) : WellNamed (SceneCollections.sceneFileFor name suffix) := by
  refine ⟨_, toList_sceneFileFor name suffix, ?_⟩
  intro kind other marked
  -- the mark of another store starts with a dot
  have dotted : '.' ∈ kind.mark := by
    cases kind with
    | scene => exact absurd rfl other
    | bindings => decide
    | links => decide
  rcases List.mem_append.mp (marked.subset dotted) with front | number
  · rcases List.mem_append.mp front with folder | slug
    · exact absurd folder (by decide)
    · exact dot_not_mem_slugify name slug
  · split at number
    · cases number
    · rcases List.mem_cons.mp number with same | digit
      · exact absurd same (by decide)
      · have digits := Nat.isDigit_of_mem_toDigits (by decide) (by decide) (Nat.toList_repr ▸ digit)
        exact absurd digits (by decide)

theorem repr_inj {i j : Nat} (same : Nat.repr i = Nat.repr j) : i = j := by
  have digits := congrArg String.toList same
  rw [Nat.toList_repr, Nat.toList_repr] at digits
  exact toDigits_inj digits

/-- Two suffix numbers never make one name. -/
theorem sceneFileFor_inj {name : String} {i j : Nat}
    (same : SceneCollections.sceneFileFor name i = SceneCollections.sceneFileFor name j) : i = j := by
  have lists := congrArg String.toList same
  rw [toList_sceneFileFor, toList_sceneFileFor, List.append_cancel_right_eq, List.append_cancel_left_eq] at lists
  split at lists
  · split at lists
    · omega
    · cases lists
  · split at lists
    · cases lists
    · have := repr_inj (String.toList_inj.mp (List.cons.inj lists).2)
      omega

end Braidcast.Scene
