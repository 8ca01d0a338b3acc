import Braidcast.Data.HeapCounts

/-!
# Counts over any calls

Whatever the callers do with the pointers they have references to, each count is the number of
the slots and entries that hold the object or array and of the references outside. Two setters
break that: the one for default values takes no reference where there is no user value, and a
value of another type leaves the other values of its item to be released as what they are not.
-/
namespace Braidcast.Data

open Lib

namespace Heap

/-- The callers have references to what they pass, keep to the bounds of an array and take a
reference only to what something refers to. -/
def Owned (h : Heap) : HeapCall → Prop
  | .create | .arrayCreate => True
  | .addref ref => ∀ r ∈ ref, r ∈ holding.holders h.cells ++ h.outside
  | .release ref => ∀ r ∈ ref, r ∈ h.outside
  | .set _ data _ setting => (∀ d ∈ data, .object d ∈ h.outside) ∧ ∀ r ∈ setting.content.pointers, r ∈ h.outside
  | .unset _ data _ | .clear data | .erase data _ | .getObj _ data _ | .getArray _ data _ =>
    ∀ d ∈ data, .object d ∈ h.outside
  | .arrayInsert array idx obj => (∀ o ∈ obj, .object o ∈ h.outside) ∧ ∀ a ∈ array, .array a ∈ h.outside ∧
      ∀ cell, holding.deref h.cells (.array a) = some cell → idx ≤ cell.body.objects.length
  | .arrayPushBackArray array array2 => (∀ a ∈ array, .array a ∈ h.outside) ∧ (∀ a ∈ array2, .array a ∈ h.outside) ∧
      -- its entries move away while they are copied
      ∀ a ∈ array, a ∉ array2
  | .arrayErase array idx => ∀ a ∈ array, .array a ∈ h.outside ∧
      ∀ cell, holding.deref h.cells (.array a) = some cell → idx < cell.body.objects.length
  | .arrayItem array _ => ∀ a ∈ array, .array a ∈ h.outside

/-- A pointer becomes the default of an item only beside a user value, and no value changes the
type of an item whose other values are not of the new one. -/
def Beside (h : Heap) : HeapCall → Prop
  | .set region data name setting => ∀ d ∈ data, ∀ object item,
      holding.deref h.cells (.object d) = some object → getItem object.body.items name = some item →
        (region = .default → item.type = setting.type → setting.content.pointers ≠ [] → item.value .user ≠ none) ∧
        (region ≠ .default → ∀ r, r ≠ region → ∀ c ∈ item.value r, c.Agrees setting.type)
  | _ => True

/-- How many slots of items and entries of arrays hold what is at an address. -/
def slots (h : Heap) (i : Nat) : Nat := ((holding.holders h.cells).map holding.address).count i

/-- How many references to it the callers have. -/
def owners (h : Heap) (i : Nat) : Nat := (h.outside.map holding.address).count i

/-- Each count is exact, nothing that is held or owned is freed, and what nothing holds or owns is. -/
structure CountsExact (h : Heap) : Prop where
  count : ∀ (i : Nat) (cell : Cell Body), h.cells[i]? = some (some cell) → cell.count = h.slots i + h.owners i
  held : ∀ ref ∈ holding.holders h.cells ++ h.outside, ∃ cell, holding.deref h.cells ref = some cell
  needed : ∀ (i : Nat) (cell : Cell Body), h.cells[i]? = some (some cell) → 0 < h.slots i + h.owners i

variable {h : Heap}

theorem Fine.countsExact (fine : Fine h.cells h.outside) : CountsExact h := by
  have count (i : Nat) (cell : Cell Body) (there : h.cells[i]? = some (some cell)) : cell.count = h.slots i + h.owners i := by
    have exact := fine.exact.count i cell there
    rwa [List.map_append, List.count_append] at exact
  exact ⟨count, fine.exact.live, fun i cell there => count i cell there ▸ fine.exact.positive i cell there⟩

theorem within_fine {cells : Option (Cells Body)} (done : ∃ cells', cells = some cells' ∧ Fine cells' h.outside) :
    ∃ h', h.within cells = some h' ∧ Fine h'.cells h'.outside := by
  obtain ⟨cells', rfl, fine⟩ := done
  exact ⟨{ h with cells := cells' }, rfl, fine⟩

theorem give_fine {refs : List Ref} (fine : Fine h.cells h.outside)
    (listed : ∀ ref ∈ refs, ref ∈ holding.holders h.cells ++ h.outside) :
    ∃ h', h.give refs = some h' ∧ Fine h'.cells h'.outside := by
  obtain ⟨cells', done, exact, same⟩ := fine.exact.take listed
  refine ⟨⟨cells', refs ++ h.outside⟩, ?_, fine.same exact same⟩
  rw [give, done]
  rfl

theorem create_fine {ref : Ref} {body : Body} (fine : Fine h.cells h.outside)
    (new : holding.address ref = h.cells.length) (fits : holding.fits ref body = true)
    (empty : holding.held body = []) (agrees : body.Agrees) (drops : holding.drops body = some []) :
    Fine (h.cells ++ [some ⟨1, body⟩]) (ref :: h.outside) where
  exact := fine.exact.alloc new fits empty drops
  agrees i cell there := by
    by_cases old : i < h.cells.length
    · rw [List.getElem?_append_left old] at there
      exact fine.agrees i cell there
    · rw [List.getElem?_append_right (Nat.le_of_not_lt old), List.getElem?_singleton] at there
      split at there
      · cases there
        exact agrees
      · cases there

/-- Every call of an owner, but for the two setters, does what it does and keeps the counts exact. -/
theorem step_fine {call : HeapCall} (owned : h.Owned call) (beside : h.Beside call)
    (fine : Fine h.cells h.outside) : ∃ h', h.step call = some h' ∧ Fine h'.cells h'.outside := by
  cases call with
  | create =>
    have agrees : (Body.object []).Agrees := fun _ none => by cases none
    exact ⟨_, rfl, create_fine fine rfl rfl rfl agrees rfl⟩
  | arrayCreate => exact ⟨_, rfl, create_fine fine rfl rfl rfl (array_agrees []) rfl⟩
  | addref ref => exact give_fine fine fun r member => owned r (Option.mem_toList.mp member)
  | release ref =>
    cases ref with
    | none => exact ⟨h, rfl, fine⟩
    | some ref =>
      have exact : holding.Exact h.cells ([ref] ++ h.outside.erase ref) [] :=
        fine.exact.perm (List.perm_cons_erase (owned ref rfl))
      obtain ⟨cells', done, exact', less⟩ := exact.release
      refine ⟨⟨cells', h.outside.erase ref⟩, ?_, exact', fun i cell there => ?_⟩
      · rw [step, done]
        rfl
      · obtain ⟨old, at_, same⟩ := less i cell there
        exact same ▸ fine.agrees i old at_
  | set region data name setting =>
    cases data with
    | none => exact ⟨h, rfl, fine⟩
    | some data => exact within_fine (setItem_fine fine (owned.1 data rfl) owned.2 (beside data rfl))
  | unset region data name =>
    cases data with
    | none => exact ⟨h, rfl, fine⟩
    | some data => exact within_fine (unsetItem_fine name region fine (owned data rfl))
  | clear data =>
    cases data with
    | none => exact ⟨h, rfl, fine⟩
    | some data => exact within_fine (clear_fine fine (owned data rfl))
  | erase data name =>
    cases data with
    | none => exact ⟨h, rfl, fine⟩
    | some data => exact within_fine (erase_fine fine (owned data rfl))
  | getObj region data name =>
    cases data with
    | none => exact ⟨h, rfl, fine⟩
    | some data =>
      obtain ⟨refs, answer, listed⟩ := getPtr_fine name region fine (owned data rfl) .object
      rw [step, answer]
      exact give_fine fine fun ref member => List.mem_append_left _ (listed ref member)
  | getArray region data name =>
    cases data with
    | none => exact ⟨h, rfl, fine⟩
    | some data =>
      obtain ⟨refs, answer, listed⟩ := getPtr_fine name region fine (owned data rfl) .array
      rw [step, answer]
      exact give_fine fine fun ref member => List.mem_append_left _ (listed ref member)
  | arrayInsert array idx obj =>
    cases array with
    | none => exact ⟨h, rfl, fine⟩
    | some array =>
      cases obj with
      | none => exact ⟨h, rfl, fine⟩
      | some obj =>
        obtain ⟨has, bounded⟩ := owned.2 array rfl
        exact within_fine (arrayInsert_fine fine has (owned.1 obj rfl) bounded)
  | arrayPushBackArray array array2 =>
    cases array with
    | none => exact ⟨h, rfl, fine⟩
    | some array =>
      cases array2 with
      | none => exact ⟨h, rfl, fine⟩
      | some array2 => exact within_fine (arrayPushBackArray_fine fine (owned.1 array rfl) (owned.2.1 array2 rfl))
  | arrayErase array idx =>
    cases array with
    | none => exact ⟨h, rfl, fine⟩
    | some array =>
      obtain ⟨has, bounded⟩ := owned array rfl
      exact within_fine (arrayErase_fine fine has bounded)
  | arrayItem array idx =>
    cases array with
    | none => exact ⟨h, rfl, fine⟩
    | some array =>
      obtain ⟨count, objects, found, there⟩ := fine.array (owned array rfl)
      rw [step, found]
      refine give_fine fine fun ref member => List.mem_append_left _ (Holding.mem_holders there ?_)
      obtain ⟨obj, listed, rfl⟩ := List.mem_map.mp member
      exact List.mem_map_of_mem (List.mem_of_getElem? (Option.mem_toList.mp listed))

/-- One call of a run; after one that went wrong there is no state. -/
def Calls (s : Option Heap) (call : HeapCall) (t : Option Heap) : Prop := s.bind (fun h => h.step call) = t

/-- In every run of calls by owners in which no pointer becomes the default of an item without a
user value and no value changes the type of one whose other values are not of it, all counts are
exact in every state. -/
theorem counts_exact {ms : List (Moment (Option Heap) HeapCall)} {u : Option Heap} (run : Run Calls (some initial) ms u)
    (owned : ∀ m ∈ ms, ∀ h ∈ m.before, h.Owned m.input) (beside : ∀ m ∈ ms, ∀ h ∈ m.before, h.Beside m.input) :
    ∃ h, u = some h ∧ CountsExact h := by
  have whole := run.invariant (P := fun s => ∃ h, s = some h ∧ Fine h.cells h.outside)
    (Q := fun m => (∀ h ∈ m.before, h.Owned m.input) ∧ ∀ h ∈ m.before, h.Beside m.input)
    (by
      rintro ⟨_, call, t⟩ ⟨owned, beside⟩ step ⟨h, rfl, fine⟩
      obtain ⟨h', done, fine'⟩ := step_fine (owned h rfl) (beside h rfl) fine
      exact ⟨h', step.symm.trans done, fine'⟩)
    (fun m member => ⟨owned m member, beside m member⟩)
    ⟨initial, rfl, ⟨fun _ _ none => (by cases none), fun _ none => (by cases none), fun _ _ none => (by cases none),
      fun _ _ none => (by cases none)⟩, fun _ _ none => (by cases none)⟩
  obtain ⟨h, same, fine⟩ := whole.1
  exact ⟨h, same, fine.countsExact⟩

theorem owned_set {region : Region} {name : List UInt8} {i j : Nat} (data : .object i ∈ h.outside) (object : .object j ∈ h.outside) :
    h.Owned (.set region (some i) name (.object (some j))) :=
  ⟨fun _ there => Option.some.inj there ▸ data, List.forall_mem_singleton.mpr object⟩

/-- A second object, and calls that put it under a name of the first. -/
def filling : List HeapCall :=
  [.create, .create, .set .user (some 0) [120] (.object (some 1)), .set .default (some 0) [120] (.object (some 1)),
    .release (some (.object 1))]

/-- Beside a user value the default value counts too: two slots and nobody else hold the second object. -/
theorem counts_exact_filling : ∃ ms u, Run Calls (some initial) ms u ∧ ∃ h, u = some h ∧ CountsExact h ∧
    h.slots 1 = 2 ∧ h.owners 1 = 0 := by
  have run := run_trace (fun s call => s.bind fun h => h.step call) (some initial) filling
  have exact := counts_exact run ?_ ?_
  · obtain ⟨h, same, exact⟩ := exact
    refine ⟨_, _, run, h, same, exact, ?_⟩
    cases same
    exact ⟨rfl, rfl⟩
  · iterate 2 refine List.forall_mem_cons.mpr ⟨fun _ _ => trivial, ?_⟩
    iterate 2 refine List.forall_mem_cons.mpr ⟨fun h there => by cases there; exact owned_set (by decide) (by decide), ?_⟩
    refine List.forall_mem_singleton.mpr fun h there r owned => ?_
    cases there
    cases owned
    decide
  · iterate 2 refine List.forall_mem_cons.mpr ⟨fun _ _ => trivial, ?_⟩
    refine List.forall_mem_cons.mpr ⟨?_, List.forall_mem_cons.mpr ⟨?_, List.forall_mem_singleton.mpr fun _ _ => trivial⟩⟩
    all_goals
      intro h there d there object item found got
      cases there
      cases there
      cases found
      cases got
    exact ⟨fun _ _ _ none => (by cases none), fun other => absurd rfl other⟩

/-- A default without a user value beside it is replaced, and nothing was taken for what it is now. -/
def replacing : List HeapCall :=
  [.create, .create, .create, .set .default (some 0) [120] (.object (some 1)), .set .default (some 0) [120] (.object (some 2)),
    .release (some (.object 2))]

/-- The third object is freed while the first holds it. -/
theorem not_counts_exact : ¬ ∀ ms u, Run Calls (some initial) ms u → (∀ m ∈ ms, ∀ h ∈ m.before, h.Owned m.input) →
    ∃ h, u = some h ∧ CountsExact h := by
  intro exact
  have run := run_trace (fun s call => s.bind fun h => h.step call) (some initial) replacing
  obtain ⟨h, same, exact⟩ := exact _ _ run <| by
    iterate 3 refine List.forall_mem_cons.mpr ⟨fun _ _ => trivial, ?_⟩
    iterate 2 refine List.forall_mem_cons.mpr ⟨fun h there => by cases there; exact owned_set (by decide) (by decide), ?_⟩
    refine List.forall_mem_singleton.mpr fun h there r owned => ?_
    cases there
    cases owned
    decide
  cases same
  obtain ⟨cell, found⟩ := exact.held (.object 2) (by decide)
  cases found

end Heap

end Braidcast.Data
