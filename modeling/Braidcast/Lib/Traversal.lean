import Mathlib.Data.List.Basic
import Mathlib.Algebra.Order.Ring.Int

/-!
# Traversals

A graph is given by the nodes that each of its nodes leads to; a node that is led to need not be in it. A
queue of nodes is worked off, and each node of the graph is entered once. The steps that are left are paid
for by the queue and the nodes not yet entered.
-/
namespace Braidcast.Lib

variable {α : Type}

/-- One node leads to another, both of the graph. -/
def Leads (edges : α → Option (List α)) (a b : α) : Prop := ∃ next, edges a = some next ∧ b ∈ next ∧ (edges b).isSome

/-- A node of the graph that some node of the list leads to. -/
def Reached (edges : α → Option (List α)) (start : List α) (b : α) : Prop :=
  ∃ a ∈ start, (edges a).isSome ∧ Relation.ReflTransGen (Leads edges) a b

variable {edges : α → Option (List α)} {start queue visited : List α} {a b : α}

/-- What has been entered is reached, and what it leads to has been entered or is in the queue. -/
structure Entered (edges : α → Option (List α)) (start queue visited : List α) : Prop where
  queued : ∀ a ∈ queue, (edges a).isSome → Reached edges start a
  sound : ∀ a ∈ visited, Reached edges start a
  begun : ∀ a ∈ start, (edges a).isSome → a ∈ visited ∨ a ∈ queue
  followed : ∀ a ∈ visited, ∀ b, Leads edges a b → b ∈ visited ∨ b ∈ queue

theorem Entered.initial (edges : α → Option (List α)) (start : List α) : Entered edges start start [] where
  queued a member defined := ⟨a, member, defined, .refl⟩
  sound _ member := absurd member List.not_mem_nil
  begun _ member _ := .inr member
  followed _ member := absurd member List.not_mem_nil

/-- A node that is in the graph no more, or was entered before, is passed over. -/
theorem Entered.pass (entered : Entered edges start (a :: queue) visited) (known : a ∈ visited ∨ edges a = none) :
    Entered edges start queue visited where
  queued b member := entered.queued b (List.mem_cons_of_mem a member)
  sound := entered.sound
  begun b member defined := by
    rcases entered.begun b member defined with seen | queued
    · exact .inl seen
    · rcases List.mem_cons.mp queued with rfl | later
      · exact .inl (known.resolve_right fun absent => by rw [absent] at defined; cases defined)
      · exact .inr later
  followed c member b leads := by
    rcases entered.followed c member b leads with seen | queued
    · exact .inl seen
    · rcases List.mem_cons.mp queued with rfl | later
      · obtain ⟨_, _, _, defined⟩ := leads
        exact .inl (known.resolve_right fun absent => by rw [absent] at defined; cases defined)
      · exact .inr later

theorem Entered.enter (entered : Entered edges start (a :: queue) visited) {next : List α} (leads : edges a = some next) :
    Entered edges start (queue ++ next) (a :: visited) := by
  have here : Reached edges start a := entered.queued a List.mem_cons_self (by rw [leads]; rfl)
  have moves {b : α} (there : b ∈ visited ∨ b ∈ a :: queue) : b ∈ a :: visited ∨ b ∈ queue ++ next := by
    rcases there with seen | queued
    · exact .inl (List.mem_cons_of_mem a seen)
    · rcases List.mem_cons.mp queued with rfl | later
      · exact .inl List.mem_cons_self
      · exact .inr (List.mem_append_left next later)
  constructor
  case queued =>
    intro b member defined
    rcases List.mem_append.mp member with old | new
    · exact entered.queued b (List.mem_cons_of_mem a old) defined
    · obtain ⟨first, from_start, first_defined, path⟩ := here
      exact ⟨first, from_start, first_defined, path.tail ⟨next, leads, new, defined⟩⟩
  case sound =>
    intro b member
    rcases List.mem_cons.mp member with rfl | seen
    · exact here
    · exact entered.sound b seen
  case begun => exact fun b member defined => moves (entered.begun b member defined)
  case followed =>
    intro c member b follows
    rcases List.mem_cons.mp member with rfl | seen
    · obtain ⟨next', leads', new, _⟩ := follows
      cases leads.symm.trans leads'
      exact .inr (List.mem_append_right queue new)
    · exact moves (entered.followed c seen b follows)

variable [DecidableEq α]

/-- The nodes entered, in the reverse of their order. -/
def traverse (edges : α → Option (List α)) : Nat → List α → List α → Option (List α)
  | _, [], visited => some visited
  | 0, _ :: _, _ => none
  | fuel + 1, a :: queue, visited =>
    if a ∈ visited then traverse edges fuel queue visited
    else
      match edges a with
      | none => traverse edges fuel queue visited
      | some next => traverse edges fuel (queue ++ next) (a :: visited)

variable {nodes : List α} {fuel : Nat}

/-- What the nodes not yet entered can still put in the queue. -/
def unentered (edges : α → Option (List α)) (visited nodes : List α) : Nat :=
  ((nodes.filter (· ∉ visited)).map fun a => ((edges a).getD []).length).sum

theorem unentered_enter (nodup : nodes.Nodup) (member : a ∈ nodes) (fresh : a ∉ visited) {next : List α} (leads : edges a = some next) :
    unentered edges visited nodes = next.length + unentered edges (a :: visited) nodes := by
  induction nodes with
  | nil => cases member
  | cons b nodes ih =>
    obtain ⟨apart, nodup⟩ := List.nodup_cons.mp nodup
    by_cases here : b = a
    · subst here
      have rest : nodes.filter (· ∉ b :: visited) = nodes.filter (· ∉ visited) := by
        refine List.filter_congr fun c later => ?_
        have other : c ≠ b := fun same => apart (same ▸ later)
        simp [other]
      rw [unentered, unentered, List.filter_cons_of_pos (by simpa using fresh), List.filter_cons_of_neg (by simp), rest,
        List.map_cons, List.sum_cons, leads, Option.getD_some]
    · have later : a ∈ nodes := (List.mem_cons.mp member).resolve_left (Ne.symm here)
      have tail := ih nodup later
      unfold unentered at tail ⊢
      by_cases seen : b ∈ visited
      · simpa [seen] using tail
      · simp only [seen, here, List.mem_cons, not_false_eq_true, or_self, decide_true, List.filter_cons_of_pos, List.map_cons,
          List.sum_cons]
        simp only [List.mem_cons] at tail
        omega

/-- The traversal ends once the fuel pays for the queue and what may still be put in it. -/
theorem traverse_ends (nodup : nodes.Nodup) (all : ∀ a, (edges a).isSome → a ∈ nodes)
    (enough : queue.length + unentered edges visited nodes ≤ fuel) : ∃ entered, traverse edges fuel queue visited = some entered := by
  induction fuel generalizing queue visited with
  | zero =>
    cases queue with
    | nil => exact ⟨visited, rfl⟩
    | cons a queue => simp at enough
  | succ fuel ih =>
    cases queue with
    | nil => exact ⟨visited, rfl⟩
    | cons a queue =>
      rw [List.length_cons] at enough
      rw [traverse]
      split
      · exact ih (by omega)
      next fresh =>
        cases leads : edges a with
        | none => exact ih (by omega)
        | some next =>
          have member : a ∈ nodes := all a (by rw [leads]; rfl)
          have pays := unentered_enter nodup member fresh leads
          exact ih (by rw [List.length_append]; omega)

theorem Entered.ends (entered : Entered edges start queue visited) {all : List α} (ended : traverse edges fuel queue visited = some all) :
    Entered edges start [] all := by
  induction fuel generalizing queue visited with
  | zero =>
    cases queue with
    | nil =>
      cases ended
      exact entered
    | cons a queue => cases ended
  | succ fuel ih =>
    cases queue with
    | nil =>
      cases ended
      exact entered
    | cons a queue =>
      rw [traverse] at ended
      split at ended
      next seen => exact ih (entered.pass (.inl seen)) ended
      next fresh =>
        cases leads : edges a with
        | none =>
          rw [leads] at ended
          exact ih (entered.pass (.inr leads)) ended
        | some next =>
          rw [leads] at ended
          exact ih (entered.enter leads) ended

/-- A traversal that has ended has entered the nodes that are reached, and no others. -/
theorem mem_traverse {all : List α} (ended : traverse edges fuel start [] = some all) : b ∈ all ↔ Reached edges start b := by
  have entered := (Entered.initial edges start).ends ended
  constructor
  · exact entered.sound b
  · rintro ⟨a, from_start, defined, path⟩
    induction path with
    | refl => exact (entered.begun a from_start defined).resolve_right List.not_mem_nil
    | tail _ leads ih => exact (entered.followed _ ih _ leads).resolve_right List.not_mem_nil

end Braidcast.Lib
