import Mathlib.Data.List.Nodup

/-!
# Setting under a key

A map as the list of its entries in the order of their keys' first setting, and entries gathered by a key.
-/
namespace Braidcast.Lib

variable {κ α : Type} [DecidableEq κ] {key : κ} {m : List (κ × α)}

/-- The value under a key is set, in its place or, where there is none, at the end. -/
def setKey (key : κ) (f : Option α → α) : List (κ × α) → List (κ × α)
  | [] => [(key, f none)]
  | (k, a) :: rest => if k = key then (k, f (some a)) :: rest else (k, a) :: setKey key f rest

/-- A new key comes last. -/
theorem setKey_of_notMem (f : Option α → α) (new : key ∉ m.map Prod.fst) : setKey key f m = m ++ [(key, f none)] := by
  induction m with
  | nil => rfl
  | cons entry rest ih =>
    rw [List.map_cons, List.mem_cons, not_or] at new
    rw [setKey, if_neg (Ne.symm new.1), ih new.2, List.cons_append]

theorem lookup_cons_ite (k first : κ) (a : α) (rest : List (κ × α)) :
    ((first, a) :: rest).lookup k = if k = first then some a else rest.lookup k := by
  rw [List.lookup_cons]
  by_cases same : k = first
  · rw [if_pos same, beq_iff_eq.mpr same]
  · rw [if_neg same, beq_false_of_ne same]

theorem lookup_setKey (key k : κ) (f : Option α → α) (m : List (κ × α)) :
    (setKey key f m).lookup k = if k = key then some (f (m.lookup key)) else m.lookup k := by
  induction m with
  | nil => exact lookup_cons_ite k key (f none) []
  | cons entry rest ih =>
    obtain ⟨first, a⟩ := entry
    rw [setKey]
    split
    next here =>
      subst here
      rw [lookup_cons_ite, lookup_cons_ite, lookup_cons_ite, if_pos rfl]
      split
      · rfl
      · rfl
    next apart =>
      rw [lookup_cons_ite, lookup_cons_ite, lookup_cons_ite, ih, if_neg (Ne.symm apart)]
      by_cases same : k = first
      · rw [if_pos same, if_pos same, if_neg (same ▸ apart)]
      · rw [if_neg same, if_neg same]

theorem mem_keys_setKey {f : Option α → α} {k : κ} : k ∈ (setKey key f m).map Prod.fst ↔ k = key ∨ k ∈ m.map Prod.fst := by
  induction m with
  | nil => simp [setKey]
  | cons entry rest ih =>
    rw [setKey]
    split
    next here => simp [here]
    next =>
      rw [List.map_cons, List.mem_cons, ih, List.map_cons, List.mem_cons]
      exact or_left_comm

theorem nodup_keys_setKey {f : Option α → α} (nodup : (m.map Prod.fst).Nodup) : ((setKey key f m).map Prod.fst).Nodup := by
  induction m with
  | nil => exact List.nodup_singleton key
  | cons entry rest ih =>
    obtain ⟨new, nodup'⟩ := List.nodup_cons.mp nodup
    rw [setKey]
    split
    · exact List.nodup_cons.mpr ⟨new, nodup'⟩
    next apart =>
      refine List.nodup_cons.mpr ⟨fun member => ?_, ih nodup'⟩
      rcases mem_keys_setKey.mp member with same | old
      · exact apart same
      · exact new old

/-- Where keys are distinct, an entry is what is found under its key. -/
theorem lookup_eq_some_iff_mem (nodup : (m.map Prod.fst).Nodup) {a : α} : m.lookup key = some a ↔ (key, a) ∈ m := by
  induction m with
  | nil => simp
  | cons entry rest ih =>
    obtain ⟨first, b⟩ := entry
    obtain ⟨new, nodup⟩ := List.nodup_cons.mp nodup
    rw [lookup_cons_ite, List.mem_cons]
    by_cases same : key = first
    · subst same
      rw [if_pos rfl]
      constructor
      · intro found
        exact .inl (by rw [Option.some.inj found])
      · rintro (here | later)
        · rw [(Prod.mk.inj here).2]
        · exact absurd (List.mem_map_of_mem later) new
    · rw [if_neg same]
      refine (ih nodup).trans ⟨.inr, ?_⟩
      rintro (here | later)
      · exact absurd (Prod.mk.inj here).1 same
      · exact later

/-- One item has the key where keys are distinct. -/
theorem filter_key_eq_singleton {ε : Type} {keyOf : ε → κ} {entries : List ε} {e : ε} (nodup : (entries.map keyOf).Nodup) (member : e ∈ entries) :
    (entries.filter fun o => keyOf o = keyOf e) = [e] := by
  induction entries with
  | nil => cases member
  | cons first entries ih =>
    obtain ⟨new, nodup⟩ := List.nodup_cons.mp nodup
    rcases List.mem_cons.mp member with rfl | later
    · rw [List.filter_cons_of_pos (by simp), List.filter_eq_nil_iff.mpr]
      intro o there same
      exact new (of_decide_eq_true same ▸ List.mem_map_of_mem there)
    · have apart : keyOf first ≠ keyOf e := fun same => new (same ▸ List.mem_map_of_mem later)
      rw [List.filter_cons_of_neg (by simp [apart]), ih nodup later]

theorem find?_key_eq_some {ε : Type} {keyOf : ε → κ} {entries : List ε} {e : ε} (nodup : (entries.map keyOf).Nodup) (member : e ∈ entries) :
    (entries.find? fun o => keyOf o = keyOf e) = some e := by
  rw [← List.head?_filter, filter_key_eq_singleton nodup member]
  rfl

section Gathering

variable {ε : Type} (keyOf : ε → κ) (add : Option α → ε → α)

/-- Entries gathered by their keys, each added to what there is for its key. -/
def gather (m : List (κ × α)) (entries : List ε) : List (κ × α) :=
  entries.foldl (fun m e => setKey (keyOf e) (fun there => add there e) m) m

variable {keyOf add} {entries : List ε}

/-- What is gathered under a key are the entries with that key, in their order. -/
theorem lookup_gather (m : List (κ × α)) (entries : List ε) (k : κ) :
    (gather keyOf add m entries).lookup k =
      (entries.filter fun e => keyOf e = k).foldl (fun there e => some (add there e)) (m.lookup k) := by
  induction entries generalizing m with
  | nil => rfl
  | cons e entries ih =>
    rw [gather, List.foldl_cons, ← gather, ih, lookup_setKey]
    by_cases here : keyOf e = k
    · rw [if_pos here.symm, List.filter_cons_of_pos (by simp [here]), List.foldl_cons, here]
    · rw [if_neg (Ne.symm here), List.filter_cons_of_neg (by simp [here])]

theorem nodup_keys_gather (nodup : (m.map Prod.fst).Nodup) : ((gather keyOf add m entries).map Prod.fst).Nodup := by
  induction entries generalizing m with
  | nil => exact nodup
  | cons e entries ih => exact ih (nodup_keys_setKey nodup)

end Gathering

end Braidcast.Lib
