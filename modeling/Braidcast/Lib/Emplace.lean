import Braidcast.Lib.Lists

/-!
# Maps that keep the first value of a key

A map as the list of its entries. Inserting under a key that is there already changes nothing.
-/
namespace Braidcast.Lib

variable {κ α : Type} [DecidableEq κ] {m entries : List (κ × α)} {e x : κ × α} {k : κ}

def emplace (m : List (κ × α)) (e : κ × α) : List (κ × α) := if e.1 ∈ m.map Prod.fst then m else m ++ [e]

/-- A range inserted, entry by entry. -/
def emplaceAll (m entries : List (κ × α)) : List (κ × α) := entries.foldl emplace m

theorem mem_keys_emplace : k ∈ (emplace m e).map Prod.fst ↔ k ∈ m.map Prod.fst ∨ k = e.1 := by
  unfold emplace
  split
  · next there =>
    constructor
    · exact .inl
    · rintro (old | rfl)
      · exact old
      · exact there
  · rw [List.map_append, List.mem_append, List.map_singleton, List.mem_singleton]

theorem mem_of_mem_emplace (member : x ∈ emplace m e) : x ∈ m ∨ x = e := by
  unfold emplace at member
  split at member
  · exact .inl member
  · exact (List.mem_append.mp member).imp_right List.mem_singleton.mp

theorem nodup_keys_emplace (nodup : (m.map Prod.fst).Nodup) : ((emplace m e).map Prod.fst).Nodup := by
  unfold emplace
  split
  · exact nodup
  · next absent => exact nodup_map_concat nodup absent

theorem mem_keys_emplaceAll : k ∈ (emplaceAll m entries).map Prod.fst ↔ k ∈ m.map Prod.fst ∨ k ∈ entries.map Prod.fst := by
  induction entries generalizing m with
  | nil => simp [emplaceAll]
  | cons e entries ih =>
    rw [emplaceAll, List.foldl_cons, ← emplaceAll, ih, mem_keys_emplace, List.map_cons, List.mem_cons, or_assoc]

theorem mem_of_mem_emplaceAll (member : x ∈ emplaceAll m entries) : x ∈ m ∨ x ∈ entries := by
  induction entries generalizing m with
  | nil => exact .inl member
  | cons e entries ih =>
    rcases ih member with first | later
    · rcases mem_of_mem_emplace first with old | rfl
      · exact .inl old
      · exact .inr List.mem_cons_self
    · exact .inr (List.mem_cons_of_mem _ later)

theorem nodup_keys_emplaceAll (nodup : (m.map Prod.fst).Nodup) : ((emplaceAll m entries).map Prod.fst).Nodup := by
  induction entries generalizing m with
  | nil => exact nodup
  | cons e entries ih => exact ih (nodup_keys_emplace nodup)

/-- Entries under keys of their own are all kept. -/
theorem emplaceAll_of_nodup (nodup : ((m ++ entries).map Prod.fst).Nodup) : emplaceAll m entries = m ++ entries := by
  induction entries generalizing m with
  | nil => exact (List.append_nil m).symm
  | cons e entries ih =>
    have absent : e.1 ∉ m.map Prod.fst := by
      rw [List.map_append, List.nodup_append] at nodup
      exact fun there => nodup.2.2 _ there _ List.mem_cons_self rfl
    rw [List.append_cons] at nodup
    rw [emplaceAll, List.foldl_cons, ← emplaceAll, emplace, if_neg absent, ih nodup, ← List.append_cons]

theorem lookup_emplace [BEq κ] [LawfulBEq κ] : (emplace m e).lookup k = (m ++ [e]).lookup k := by
  unfold emplace
  split
  · next there =>
    rw [List.lookup_append]
    cases found : m.lookup k with
    | some x => rfl
    | none =>
      have apart : k ≠ e.1 := by
        rintro rfl
        obtain ⟨x, member, same⟩ := List.mem_map.mp there
        exact absurd same.symm (by simpa using List.lookup_eq_none_iff.mp found x member)
      rw [Option.none_or, List.lookup_cons, beq_false_of_ne apart]
      rfl
  · rfl

/-- The value that a key came with first. -/
theorem lookup_emplaceAll [BEq κ] [LawfulBEq κ] : (emplaceAll m entries).lookup k = (m ++ entries).lookup k := by
  induction entries generalizing m with
  | nil => rw [List.append_nil]; rfl
  | cons e entries ih =>
    rw [emplaceAll, List.foldl_cons, ← emplaceAll, ih, List.lookup_append, lookup_emplace, ← List.lookup_append, ← List.append_cons]

end Braidcast.Lib
