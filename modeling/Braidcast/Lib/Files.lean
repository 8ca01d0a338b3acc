import Mathlib.Data.List.Nodup
import Mathlib.Data.List.Perm.Subperm

/-!
# Named files

A folder as the list of its files, one for each name, and the search for a name that is
free.
-/
namespace Braidcast.Lib

abbrev Files (κ β : Type) : Type := List (κ × β)

namespace Files

variable {κ β : Type} [DecidableEq κ] {files : Files κ β} {name name' : κ} {bytes : β}

def read (files : Files κ β) (name : κ) : Option β :=
  (files.find? fun f => f.1 = name).map Prod.snd

def deleteWhere (files : Files κ β) (gone : κ → Bool) : Files κ β :=
  files.filter fun f => !gone f.1

def delete (files : Files κ β) (name : κ) : Files κ β :=
  files.deleteWhere fun n => n = name

def write (files : Files κ β) (name : κ) (bytes : β) : Files κ β :=
  (name, bytes) :: files.delete name

/-- A file takes another's place, where it is there. -/
def move (files : Files κ β) (source target : κ) : Files κ β :=
  match files.read source with
  | some bytes => (files.delete source).write target bytes
  | none => files

@[simp] theorem read_deleteWhere {gone : κ → Bool} :
    (files.deleteWhere gone).read name = if gone name then none else files.read name := by
  induction files with
  | nil => simp [read, deleteWhere]
  | cons f files ih =>
    simp only [read, deleteWhere, List.filter_cons, List.find?_cons] at ih ⊢
    by_cases here : f.1 = name
    · subst here
      cases goes : gone f.1 with
      | true => simpa [goes] using ih
      | false => simp
    · cases goes : gone f.1 with
      | true | false => simpa [here] using ih

@[simp] theorem read_delete : (files.delete name').read name = if name = name' then none else files.read name := by
  simp [delete]

@[simp] theorem read_write : (files.write name' bytes).read name = if name = name' then some bytes else files.read name := by
  by_cases same : name = name'
  · subst same
    simp [read, write]
  · have deleted : (files.delete name').read name = files.read name := by rw [read_delete, if_neg same]
    rw [if_neg same, ← deleted]
    simp [read, write, Ne.symm same]

theorem read_move {source target : κ} : (files.move source target).read name =
    if (files.read source).isSome then
      if name = target then files.read source else if name = source then none else files.read name
    else files.read name := by
  simp only [move]
  cases there : files.read source with
  | none => simp
  | some bytes => simp

/-- What can be read has its name in the folder. -/
theorem mem_names (there : files.read name = some bytes) : name ∈ files.map Prod.fst := by
  obtain ⟨f, found, _⟩ := Option.map_eq_some_iff.mp there
  have named : f.1 = name := by simpa using List.find?_some found
  exact List.mem_map.mpr ⟨f, List.mem_of_find?_eq_some found, named⟩

end Files

/-! ### A name that is free -/

/-- The first candidate from number `n` on that is not taken. -/
def firstFree {κ : Type} (candidate : Nat → κ) (taken : κ → Bool) : Nat → Nat → Option κ
  | 0, _ => none
  | fuel + 1, n => if taken (candidate n) then firstFree candidate taken fuel (n + 1) else some (candidate n)

variable {κ : Type} {candidate : Nat → κ} {taken : κ → Bool} {fuel n : Nat} {x : κ}

theorem firstFree_eq_some (found : firstFree candidate taken fuel n = some x) :
    taken x = false ∧ ∃ i, x = candidate i := by
  induction fuel generalizing n with
  | zero => cases found
  | succ fuel ih =>
    simp only [firstFree] at found
    split at found
    · exact ih found
    next free =>
      cases found
      exact ⟨by simpa using free, n, rfl⟩

theorem taken_of_firstFree_eq_none (none : firstFree candidate taken fuel n = none) {i : Nat} (bound : i < fuel) :
    taken (candidate (n + i)) = true := by
  induction fuel generalizing n i with
  | zero => omega
  | succ fuel ih =>
    simp only [firstFree] at none
    split at none
    next here =>
      cases i with
      | zero => exact here
      | succ i =>
        have := ih none (show i < fuel by omega)
        rwa [Nat.add_assoc, Nat.add_comm 1 i] at this
    · cases none

/-- With candidates told apart, more tries than names taken find one. -/
theorem isSome_firstFree [DecidableEq κ] {names : List κ} (distinct : ∀ i j, candidate i = candidate j → i = j)
    (within : ∀ x, taken x = true → x ∈ names) (enough : names.length < fuel) : (firstFree candidate taken fuel n).isSome := by
  by_contra absent
  rw [Bool.not_eq_true, Option.isSome_eq_false_iff, Option.isNone_iff_eq_none] at absent
  have tried : ((List.range fuel).map fun i => candidate (n + i)).Nodup := by
    rw [List.nodup_map_iff_inj_on List.nodup_range]
    intro i _ j _ same
    have := distinct _ _ same
    omega
  have allTaken : ((List.range fuel).map fun i => candidate (n + i)) ⊆ names := by
    intro x member
    obtain ⟨i, bound, rfl⟩ := List.mem_map.mp member
    exact within _ (taken_of_firstFree_eq_none absent (List.mem_range.mp bound))
  have fits := (List.subperm_of_subset tried allTaken).length_le
  rw [List.length_map, List.length_range] at fits
  omega

/-- The number of tries makes no difference to what is found. -/
theorem firstFree_unique {taken' : κ → Bool} {fuel' : Nat} {y : κ} (same : ∀ i, taken (candidate i) = taken' (candidate i))
    (found : firstFree candidate taken fuel n = some x) (found' : firstFree candidate taken' fuel' n = some y) : x = y := by
  induction fuel generalizing fuel' n with
  | zero => cases found
  | succ fuel ih =>
    cases fuel' with
    | zero => cases found'
    | succ fuel' =>
      simp only [firstFree, ← same] at found found'
      split at found
      next here =>
        rw [if_pos here] at found'
        exact ih found found'
      next free =>
        rw [if_neg free] at found'
        cases found
        exact Option.some.inj found'

end Braidcast.Lib
