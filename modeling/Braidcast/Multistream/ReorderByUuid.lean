import Mathlib.Data.List.Induction
import Mathlib.Data.List.Nodup

/-!
# Reordering the rows of a store

`ReorderByUuid` of `StorePaths.hpp`, which the multistream stores share.
-/
namespace Braidcast.Multistream.StorePaths

/-- An element of `items` and its entry of `moved`. Once moved, the element is not read again. -/
structure Slot (α : Type) where
  item : α
  moved : Bool

variable {α : Type} (uuid : α → String)

/-- The inner loop: takes the first match that has not been moved. -/
def moveFirst (id : String) : List (Slot α) → Option (α × List (Slot α))
  | [] => none
  | slot :: slots =>
    if slot.moved = false ∧ uuid slot.item = id then some (slot.item, { slot with moved := true } :: slots)
    else (moveFirst id slots).map fun (item, rest) => (item, slot :: rest)

/-- One uuid of the order. `s` is `reordered` with the slots. -/
def moveNext (s : List α × List (Slot α)) (id : String) : List α × List (Slot α) :=
  match moveFirst uuid id s.2 with
  | some (item, slots) => (s.1 ++ [item], slots)
  | none => s

def moveAll (items : List α) (order : List String) : List α × List (Slot α) :=
  order.foldl (moveNext uuid) ([], items.map (⟨·, false⟩))

def reorderByUuid (items : List α) (order : List String) : List α :=
  (moveAll uuid items order).1 ++ ((moveAll uuid items order).2.filter (!·.moved)).map Slot.item

/-- The rows that are named come first, in the order of their first mention; the others follow as they were. -/
def NamedFirst (items : List α) (order : List String) (result : List α) : Prop :=
  ∃ named, result = named ++ items.filter (uuid · ∉ order) ∧ named.Perm (items.filter (uuid · ∈ order)) ∧
    named.Pairwise fun a b => order.idxOf (uuid a) < order.idxOf (uuid b)

variable {uuid} {items result : List α} {order : List String} {id : String}

/-- The rows, moved where the order has named them. -/
def slots (uuid : α → String) (items : List α) (order : List String) : List (Slot α) :=
  items.map fun item => ⟨item, uuid item ∈ order⟩

theorem moveFirst_none (absent : ∀ item ∈ items, uuid item = id → uuid item ∈ order) : moveFirst uuid id (slots uuid items order) = none := by
  induction items with
  | nil => rfl
  | cons item items ih =>
    have rest := ih fun other member => absent other (List.mem_cons_of_mem _ member)
    have skipped : ¬ (decide (uuid item ∈ order) = false ∧ uuid item = id) := fun ⟨fresh, same⟩ =>
      absurd (absent item List.mem_cons_self same) (by simpa using fresh)
    rw [slots] at rest ⊢
    rw [List.map_cons, moveFirst, if_neg skipped, rest, Option.map_none]

/-- The one row of the uuid is moved, and no other. -/
theorem moveFirst_some (distinct : (items.map uuid).Nodup) (fresh : id ∉ order) {item : α} (member : item ∈ items) (named : uuid item = id) :
    moveFirst uuid id (slots uuid items order) = some (item, slots uuid items (order ++ [id])) := by
  induction items with
  | nil => cases member
  | cons first items ih =>
    rw [List.map_cons, List.nodup_cons] at distinct
    simp only [slots, List.map_cons, moveFirst] at ih ⊢
    by_cases same : uuid first = id
    · have here : item = first := by
        rcases List.mem_cons.mp member with here | later
        · exact here
        · exact absurd (List.mem_map.mpr ⟨item, later, named.trans same.symm⟩) distinct.1
      have others : ∀ other ∈ items, (uuid other ∈ order ↔ uuid other ∈ order ∨ uuid other = id) := by
        intro other later
        have differs : uuid other ≠ id := fun clash => distinct.1 (List.mem_map.mpr ⟨other, later, clash.trans same.symm⟩)
        simp [differs]
      rw [if_pos ⟨decide_eq_false (same ▸ fresh), same⟩, here]
      simp only [same, List.mem_append, List.mem_singleton, or_true, decide_true, Option.some.injEq, Prod.mk.injEq, true_and,
        List.cons.injEq]
      exact List.map_congr_left fun other later => by rw [decide_eq_decide.mpr (others other later)]
    · have later : item ∈ items := (List.mem_cons.mp member).resolve_left fun here => same (here ▸ named)
      rw [if_neg fun both => same both.2, ih distinct.2 later]
      simp [same]

theorem nodup_of_sorted {xs : List α} (sorted : xs.Pairwise fun a b => order.idxOf (uuid a) < order.idxOf (uuid b)) : xs.Nodup :=
  sorted.imp fun {a b} (less : order.idxOf (uuid a) < order.idxOf (uuid b)) (same : a = b) => Nat.ne_of_lt less (by rw [same])

/-- What the loop has moved, and what it has left. -/
theorem moveAll_spec (distinct : (items.map uuid).Nodup) (order : List String) :
    (moveAll uuid items order).2 = slots uuid items order ∧ (moveAll uuid items order).1.Perm (items.filter (uuid · ∈ order)) ∧
      (moveAll uuid items order).1.Pairwise fun a b => order.idxOf (uuid a) < order.idxOf (uuid b) := by
  induction order using List.reverseRecOn with
  | nil => simp [moveAll, slots]
  | append_singleton order id ih =>
    obtain ⟨left, perm, sorted⟩ := ih
    have step : moveAll uuid items (order ++ [id]) = moveNext uuid (moveAll uuid items order) id := by
      rw [moveAll, List.foldl_concat, moveAll]
    have mentioned : ∀ a ∈ (moveAll uuid items order).1, uuid a ∈ order := fun a member => by
      simpa using (List.mem_filter.mp (perm.mem_iff.mp member)).2
    have kept : (moveAll uuid items order).1.Pairwise fun a b => (order ++ [id]).idxOf (uuid a) < (order ++ [id]).idxOf (uuid b) := by
      refine sorted.imp_of_mem fun {a b} memberA memberB less => ?_
      rwa [List.idxOf_append_of_mem (mentioned a memberA), List.idxOf_append_of_mem (mentioned b memberB)]
    rw [step, moveNext, left]
    by_cases moves : id ∉ order ∧ ∃ item ∈ items, uuid item = id
    · obtain ⟨fresh, item, member, named⟩ := moves
      rw [moveFirst_some distinct fresh member named]
      have last : ((moveAll uuid items order).1 ++ [item]).Pairwise fun a b =>
          (order ++ [id]).idxOf (uuid a) < (order ++ [id]).idxOf (uuid b) := by
        refine List.pairwise_append.mpr ⟨kept, List.pairwise_singleton .., fun a memberA b memberB => ?_⟩
        rw [List.mem_singleton.mp memberB, named, List.idxOf_append_of_mem (mentioned a memberA), List.idxOf_append_of_notMem fresh]
        exact Nat.lt_add_right _ (List.idxOf_lt_length_of_mem (mentioned a memberA))
      refine ⟨rfl, ?_, ?_⟩
      · refine (List.perm_ext_iff_of_nodup (nodup_of_sorted last) ((distinct.of_map uuid).filter _)).mpr fun a => ?_
        have before : a ∈ (moveAll uuid items order).1 ↔ a ∈ items ∧ uuid a ∈ order := by simpa using perm.mem_iff (a := a)
        have one : a ∈ items → uuid a = id → a = item := fun there named' =>
          List.inj_on_of_nodup_map distinct there member (named'.trans named.symm)
        simp only [List.mem_append, List.mem_singleton, before, List.mem_filter, decide_eq_true_eq]
        grind
      · exact last
    · have same : ∀ item ∈ items, (uuid item ∈ order ↔ uuid item ∈ order ++ [id]) := by
        intro item member
        simp only [List.mem_append, List.mem_singleton]
        refine ⟨.inl, fun either => either.elim (fun there => there) fun named => ?_⟩
        by_contra fresh
        exact moves ⟨named ▸ fresh, item, member, named⟩
      have absent : ∀ item ∈ items, uuid item = id → uuid item ∈ order := fun item member named =>
        (same item member).mpr (by simp [named])
      rw [moveFirst_none absent]
      refine ⟨?_, ?_, kept⟩
      · rw [left]
        exact List.map_congr_left fun item member => by rw [decide_eq_decide.mpr (same item member)]
      · rwa [List.filter_congr fun item member => decide_eq_decide.mpr (same item member)] at perm

theorem reorderByUuid_namedFirst (distinct : (items.map uuid).Nodup) (order : List String) :
    NamedFirst uuid items order (reorderByUuid uuid items order) := by
  obtain ⟨left, perm, sorted⟩ := moveAll_spec distinct order
  refine ⟨(moveAll uuid items order).1, ?_, perm, sorted⟩
  rw [reorderByUuid, left, slots, List.filter_map, List.map_map]
  congr 1
  simp [Function.comp_def]

namespace NamedFirst

theorem perm (first : NamedFirst uuid items order result) : result.Perm items := by
  obtain ⟨named, rfl, some, -⟩ := first
  refine (some.append_right _).trans ?_
  simpa using List.filter_append_perm (fun item => decide (uuid item ∈ order)) items

/-- There is one such list. -/
theorem unique {result' : List α} (first : NamedFirst uuid items order result) (again : NamedFirst uuid result order result') : result' = result := by
  obtain ⟨named, rfl, some, sorted⟩ := first
  obtain ⟨named', rfl, some', sorted'⟩ := again
  have all : ∀ item ∈ named, uuid item ∈ order := fun item member => by
    simpa using (List.mem_filter.mp (some.mem_iff.mp member)).2
  have others : (named ++ items.filter (uuid · ∉ order)).filter (uuid · ∉ order) = items.filter (uuid · ∉ order) := by
    rw [List.filter_append, List.filter_eq_nil_iff.mpr fun item member => by simpa using all item member, List.nil_append,
      List.filter_filter]
    simp
  have firsts : (named ++ items.filter (uuid · ∉ order)).filter (uuid · ∈ order) = named := by
    rw [List.filter_append, List.filter_eq_self.mpr fun item member => by simpa using all item member, List.filter_filter]
    simp
  rw [firsts] at some'
  rw [others, some'.eq_of_pairwise (fun a b _ _ less more => absurd less (Nat.lt_asymm more)) sorted' sorted]

end NamedFirst

/-- A reorder loses and doubles no row, puts the named ones first, and made twice is made once. -/
theorem reorderByUuid_stable (distinct : (items.map uuid).Nodup) (order : List String) :
    (reorderByUuid uuid items order).Perm items ∧ NamedFirst uuid items order (reorderByUuid uuid items order) ∧
      reorderByUuid uuid (reorderByUuid uuid items order) order = reorderByUuid uuid items order := by
  have first := reorderByUuid_namedFirst distinct order
  have distinct' : ((reorderByUuid uuid items order).map uuid).Nodup := (first.perm.map uuid).nodup_iff.mpr distinct
  exact ⟨first.perm, first, first.unique (reorderByUuid_namedFirst distinct' order)⟩

/-- An unknown id, a repeated one and a row left out. -/
theorem reorderByUuid_stable_stale : (["a", "b", "c"].map fun row => row).Nodup ∧
    (reorderByUuid (fun row => row) ["a", "b", "c"] ["x", "c", "a", "c"]).Perm ["a", "b", "c"] ∧
    reorderByUuid (fun row => row) ["a", "b", "c"] ["x", "c", "a", "c"] = ["c", "a", "b"] := by
  have distinct : (["a", "b", "c"].map fun row => row).Nodup := by decide
  exact ⟨distinct, (reorderByUuid_stable distinct _).1, by decide⟩

end Braidcast.Multistream.StorePaths
