import Braidcast.Scene.FileNames

/-!
# What a save and a load touch

A store is two files, the main one and its backup. Every operation on one collection's store
leaves the other stores of the folder as they are.
-/
namespace Braidcast.Scene

open Lib Multistream

theorem StoreKind.mem_all (kind : StoreKind) : kind ∈ StoreKind.all := by
  cases kind <;> decide

/-! ### One store -/

section

variable {α : Type} {files files' files'' : Files String (Content α)} {rel rel' name : String} {kind kind' : StoreKind} {state : α}

theorem bak_ne (rel : String) : bak rel ≠ rel := by
  intro same
  have lengths := congrArg String.length same
  have four : ".bak".length = 4 := by decide
  rw [bak, String.length_append, four] at lengths
  omega

/-- A load gives the main file's state or else the backup's. -/
theorem loadStore_eq : loadStore files rel =
    (createFromJsonFile (files.read rel)).or (createFromJsonFile (files.read (bak rel))) := by
  simp only [loadStore, restoreStore]
  split
  next state parses => rw [parses, Option.some_or]
  next unparsed =>
    rw [unparsed, Option.none_or, Files.read_move, if_pos rfl]
    cases backup : files.read (bak rel) with
    | some content => rw [Option.isSome_some, if_pos rfl]
    | none =>
      rw [Option.isSome_none, if_neg Bool.false_ne_true, unparsed]
      rfl

/-- The store loads from its main file or not at all. -/
def Settled (files : Files String (Content α)) (rel : String) : Prop :=
  loadStore files rel = createFromJsonFile (files.read rel)

theorem read_saveStore : (saveStore files rel state).read rel = some (.whole state) := by
  simp only [saveStore]
  split <;> rw [Files.read_write, if_pos rfl]

theorem read_saveStore_of_ne (main : name ≠ rel) (backup : name ≠ bak rel) :
    (saveStore files rel state).read name = files.read name := by
  simp only [saveStore]
  split
  · rw [Files.read_write, if_neg main, Files.read_write, if_neg backup]
  · rw [Files.read_write, if_neg main]

theorem loadStore_saveStore : loadStore (saveStore files rel state) rel = some state := by
  rw [loadStore_eq, read_saveStore]
  rfl

theorem settled_saveStore : Settled (saveStore files rel state) rel := by
  rw [Settled, loadStore_saveStore, read_saveStore]
  rfl

theorem read_restoreStore_of_ne (main : name ≠ rel) (backup : name ≠ bak rel) : (restoreStore files rel).read name = files.read name := by
  simp only [restoreStore]
  split
  · rfl
  · rw [Files.read_move, if_neg main, if_neg backup]
    exact ite_self _

/-- A load leaves the store in order: a backup that was needed is the main file now. -/
theorem settled_restoreStore : Settled (restoreStore files rel) rel := by
  rw [Settled, loadStore_eq]
  cases parses : createFromJsonFile ((restoreStore files rel).read rel) with
  | some state => exact Option.some_or
  | none =>
    have unparsed : createFromJsonFile (files.read rel) = none := by
      cases parsed : createFromJsonFile (files.read rel) with
      | none => exact Eq.refl _
      | some state =>
        simp only [restoreStore, parsed] at parses
        cases parses
    simp only [restoreStore, unparsed, Files.read_move] at parses ⊢
    rw [Option.none_or, if_neg (bak_ne rel), if_pos True.intro]
    cases backup : files.read (bak rel) with
    | some content => rw [Option.isSome_some, if_pos rfl]; exact Eq.refl _
    | none => rw [Option.isSome_none, if_neg Bool.false_ne_true]; exact Eq.refl _

theorem read_copyRel_of_ne {source target : String} (other : name ≠ target) : (copyRel files source target).read name = files.read name := by
  simp only [copyRel]
  split
  · rfl
  · split
    · rfl
    · rw [Files.read_write, if_neg other]

/-- A copy to a name that is free. -/
theorem read_copyRel {source target : String} (free : files.read target = none) :
    (copyRel files source target).read target = files.read source := by
  simp only [copyRel]
  split
  next absent => rw [free, absent]
  next content there => rw [free, Option.isSome_none, if_neg Bool.false_ne_true, Files.read_write, if_pos rfl, there]

/-! ### The other stores -/

/-- The two files of the store are as they were. -/
def Keeps (files files' : Files String (Content α)) (rel : String) (kind : StoreKind) : Prop :=
  ∀ backup, files'.read (place rel kind backup) = files.read (place rel kind backup)

theorem Keeps.refl (files : Files String (Content α)) (rel : String) (kind : StoreKind) : Keeps files files rel kind :=
  fun _ => Eq.refl _

theorem Keeps.trans (first : Keeps files files' rel kind) (second : Keeps files' files'' rel kind) : Keeps files files'' rel kind :=
  fun backup => (second backup).trans (first backup)

theorem Keeps.main (kept : Keeps files files' rel kind) : files'.read (kind.rel rel) = files.read (kind.rel rel) :=
  kept false

theorem Keeps.loadStore (kept : Keeps files files' rel kind) : loadStore files' (kind.rel rel) = loadStore files (kind.rel rel) := by
  have backup : files'.read (bak (kind.rel rel)) = files.read (bak (kind.rel rel)) := kept true
  rw [loadStore_eq, loadStore_eq, kept.main, backup]

theorem Keeps.settled (kept : Keeps files files' rel kind) (settled : Settled files (kind.rel rel)) : Settled files' (kind.rel rel) := by
  rw [Settled, kept.loadStore, kept.main]
  exact settled

section

variable (named : WellNamed rel)
include named

section

variable (named' : WellNamed rel')
include named'

section

variable (apart : rel ≠ rel' ∨ kind ≠ kind')
include apart

/-- Files of different stores have different names. -/
theorem place_ne (backup backup' : Bool) :
    place rel kind backup ≠ place rel' kind' backup' := by
  intro same
  obtain ⟨sameRel, sameKind, _⟩ := place_inj named named' same
  rcases apart with other | other
  · exact other sameRel
  · exact other sameKind

theorem keeps_saveStore :
    Keeps files (saveStore files (kind'.rel rel') state) rel kind :=
  fun backup => read_saveStore_of_ne (place_ne named named' apart backup false) (place_ne named named' apart backup true)

theorem keeps_restoreStore :
    Keeps files (restoreStore files (kind'.rel rel')) rel kind :=
  fun backup => read_restoreStore_of_ne (place_ne named named' apart backup false) (place_ne named named' apart backup true)

theorem keeps_copyRel {source : String} :
    Keeps files (copyRel files source (kind'.rel rel')) rel kind :=
  fun backup => read_copyRel_of_ne (place_ne named named' apart backup false)

end

theorem keeps_delete (other : rel ≠ rel') : Keeps files (files.delete rel') rel kind := by
  intro backup
  have apart : place rel kind backup ≠ place rel' .scene false := place_ne named named' (.inl other) backup false
  exact Files.read_delete.trans (if_neg apart)

end

end

end

end Braidcast.Scene
