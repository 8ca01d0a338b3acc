import Mathlib.Data.List.Induction

/-!
# Items handed out in order

Items go to takers one by one, in the order of both. Each item changes what is kept for its
taker, and nothing else.
-/
namespace Braidcast.Lib

variable {κ α β : Type} {takers : List κ} {items : List β}

/-- One more item goes to the next taker. -/
theorem zip_concat_of_getElem? {k : κ} {b : β} (next : takers[items.length]? = some k) :
    takers.zip (items ++ [b]) = takers.zip items ++ [(k, b)] := by
  induction items generalizing takers with
  | nil =>
    cases takers with
    | nil => cases next
    | cons taker takers =>
      cases next
      simp
  | cons item items ih =>
    cases takers with
    | nil => cases next
    | cons taker takers => simpa using ih next

theorem zip_concat_concat {k : κ} {b : β} (same : takers.length = items.length) :
    (takers ++ [k]).zip (items ++ [b]) = takers.zip items ++ [(k, b)] := by
  rw [List.zip_append same]
  rfl

/-- The takers that get an item, in their order. -/
theorem takers_of_zip (takers : List κ) (items : List β) : (takers.zip items).map Prod.fst <+: takers := by
  induction takers generalizing items with
  | nil => simp
  | cons taker takers ih =>
    cases items with
    | nil => exact List.nil_prefix
    | cons item items => simpa using ih items

theorem zip_snd_of_le (enough : items.length ≤ takers.length) : (takers.zip items).map Prod.snd = items :=
  List.map_snd_zip enough

variable [DecidableEq κ] {f : β → α → α} {m : κ → α} {pairs : List (κ × β)} {k : κ} {b : β}

/-- What is kept for each key after the items of `pairs`. -/
def assign (f : β → α → α) (m : κ → α) (pairs : List (κ × β)) : κ → α :=
  pairs.foldl (fun m e => Function.update m e.1 (f e.2 (m e.1))) m

theorem assign_concat (e : κ × β) :
    assign f m (pairs ++ [e]) = Function.update (assign f m pairs) e.1 (f e.2 (assign f m pairs e.1)) := by
  rw [assign, List.foldl_append]
  rfl

theorem assign_of_notMem (absent : k ∉ pairs.map Prod.fst) : assign f m pairs k = m k := by
  induction pairs using List.reverseRecOn with
  | nil => rfl
  | append_singleton pairs e ih =>
    rw [List.map_append, List.mem_append, not_or, List.map_singleton, List.mem_singleton] at absent
    rw [assign_concat, Function.update_of_ne absent.2, ih absent.1]

theorem assign_of_mem (nodup : (pairs.map Prod.fst).Nodup) (member : (k, b) ∈ pairs) : assign f m pairs k = f b (m k) := by
  induction pairs using List.reverseRecOn with
  | nil => cases member
  | append_singleton pairs e ih =>
    rw [List.map_append, List.map_singleton, List.nodup_append] at nodup
    obtain ⟨first, -, apart⟩ := nodup
    rw [assign_concat]
    rcases List.mem_append.mp member with earlier | last
    · have other : k ≠ e.1 := apart k (List.mem_map_of_mem earlier) e.1 (by simp)
      rw [Function.update_of_ne other, ih first earlier]
    · obtain rfl : (k, b) = e := by simpa using last
      have new : k ∉ pairs.map Prod.fst := fun old => apart k old k (by simp) rfl
      rw [Function.update_self, assign_of_notMem new]

/-- Keeping what each key was given last, which is all it was given. -/
theorem assign_eq_lookup [BEq κ] [LawfulBEq κ] {pairs : List (κ × β)} (nodup : (pairs.map Prod.fst).Nodup) :
    assign (fun b _ => some b) (fun _ => none) pairs = fun k => pairs.lookup k := by
  funext k
  cases found : pairs.lookup k with
  | none =>
    have absent : k ∉ pairs.map Prod.fst := fun member => by
      obtain ⟨e, inside, rfl⟩ := List.mem_map.mp member
      have other := List.lookup_eq_none_iff.mp found e inside
      rw [bne_self_eq_false] at other
      cases other
    exact assign_of_notMem absent
  | some b =>
    obtain ⟨before, after, rfl, -⟩ := List.lookup_eq_some_iff.mp found
    exact assign_of_mem (f := fun b _ => some b) (m := fun _ => none) nodup (by simp)

/-- Handing an item to its taker again changes nothing. -/
theorem assign_again (nodup : (pairs.map Prod.fst).Nodup) (twice : ∀ b a, f b (f b a) = f b a) (member : (k, b) ∈ pairs) :
    Function.update (assign f m pairs) k (f b (assign f m pairs k)) = assign f m pairs := by
  rw [Function.update_eq_self_iff, assign_of_mem nodup member, twice]

end Braidcast.Lib
