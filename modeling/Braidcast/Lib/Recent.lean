import Braidcast.Lib.Run
import Mathlib.Data.List.Sort

/-!
# Rows kept by their last use

Rows with a stamp, the latest first and no more than a cap. A row that is used takes a stamp
above every other, whatever the clock says, so that it is first and the rows used longest ago are
those the cap drops.
-/
namespace Braidcast.Lib.Recent

variable {ρ : Type} (stamp : ρ → Int)

/-- Rows sorted by their stamps, the latest first and otherwise in order, up to the cap. -/
def newest (cap : Nat) (rows : List ρ) : List ρ := (rows.insertionSort fun a b => stamp b ≤ stamp a).take cap

/-- The clock, or one past the first stamp where the clock is not past it. -/
def above (now : Int) : List ρ → Int
  | [] => now
  | first :: _ => max now (stamp first + 1)

structure Kept (cap : Nat) (rows : List ρ) : Prop where
  ordered : rows.Pairwise fun a b => stamp b ≤ stamp a
  capped : rows.length ≤ cap

variable {stamp} {cap : Nat} {rows others : List ρ} {row other : ρ} {now top : Int}

theorem newest_prefix (stamp : ρ → Int) (cap : Nat) (rows : List ρ) : ∃ sorted : List ρ, sorted.Perm rows ∧ newest stamp cap rows <+: sorted :=
  ⟨_, List.perm_insertionSort _ rows, List.take_prefix _ _⟩

theorem mem_of_mem_newest (member : row ∈ newest stamp cap rows) : row ∈ rows := by
  obtain ⟨sorted, perm, part⟩ := newest_prefix stamp cap rows
  exact perm.mem_iff.mp (part.subset member)

theorem kept_newest (stamp : ρ → Int) (cap : Nat) (rows : List ρ) : Kept stamp cap (newest stamp cap rows) := by
  have sorted : (rows.insertionSort fun a b => stamp b ≤ stamp a).Pairwise fun a b => stamp b ≤ stamp a := by
    exact List.pairwise_insertionSort _ rows
  exact ⟨sorted.sublist (List.take_sublist _ _), List.length_take_le _ _⟩

theorem Kept.sublist (kept : Kept stamp cap rows) (part : others.Sublist rows) : Kept stamp cap others :=
  ⟨kept.ordered.sublist part, part.length_le.trans kept.capped⟩

/-- A stamp taken now is above every stamp there. -/
theorem Kept.lt_above (kept : Kept stamp cap rows) (now : Int) (member : row ∈ rows) : stamp row < above stamp now rows := by
  cases rows with
  | nil => cases member
  | cons first rest =>
    have most : stamp row ≤ stamp first := by
      rcases List.mem_cons.mp member with rfl | later
      · exact le_rfl
      · exact (List.pairwise_cons.mp kept.ordered).1 row later
    rw [above]
    omega

/-- The row with the latest stamp comes first. -/
theorem head?_newest (room : 0 < cap) (member : row ∈ rows) (latest : ∀ other ∈ rows, other = row ∨ stamp other < stamp row) :
    (newest stamp cap rows).head? = some row := by
  have kept := kept_newest stamp rows.length rows
  have whole : newest stamp rows.length rows = rows.insertionSort fun a b => stamp b ≤ stamp a := by
    rw [newest, List.take_of_length_le (by rw [List.length_insertionSort])]
  rw [whole] at kept
  have there : row ∈ rows.insertionSort fun a b => stamp b ≤ stamp a := (List.mem_insertionSort _).mpr member
  rw [newest, List.head?_take, if_neg room.ne']
  cases sorted : rows.insertionSort fun a b => stamp b ≤ stamp a with
  | nil => rw [sorted] at there; cases there
  | cons first rest =>
    rw [sorted] at kept there
    have mine : first ∈ rows := (List.mem_insertionSort (fun a b => stamp b ≤ stamp a)).mp (sorted ▸ List.mem_cons_self)
    rcases latest first mine with rfl | less
    · rfl
    · rcases List.mem_cons.mp there with rfl | later
      · rfl
      · exact absurd ((List.pairwise_cons.mp kept.ordered).1 row later) (not_le.mpr less)

/-! ### Runs -/

inductive Event (ρ : Type)
  | load
  | use (row : ρ) (now : Int)
  | quiet

variable (stamp cap top)

/-- Rows are loaded with stamps up to `top`; a use stamps one row above the others; and rows are
dropped or changed without a new stamp. -/
inductive Step : List ρ → Event ρ → List ρ → Prop
  | load {before loaded after : List ρ} (small : ∀ row ∈ loaded, stamp row ≤ top) (part : after.Sublist (newest stamp cap loaded)) :
    Step before .load after
  | use {before changed : List ρ} {row : ρ} {now : Int} (stamped : stamp row = above stamp now before) (member : row ∈ changed)
    (others : ∀ other ∈ changed, other = row ∨ ∃ old ∈ before, stamp old = stamp other) :
    Step before (.use row now) (newest stamp cap changed)
  | quiet {before after : List ρ} (stamps : (after.map stamp).Sublist (before.map stamp)) : Step before .quiet after

/-- How many uses there are in a run. -/
def uses (ms : List (Moment (List ρ) (Event ρ))) : Nat :=
  (ms.filter fun m => match m.input with
    | .use _ _ => true
    | _ => false).length

variable {stamp cap top}
variable {event : Event ρ} {ms : List (Moment (List ρ) (Event ρ))}

theorem kept_of_stamps (kept : Kept stamp cap rows) (stamps : (others.map stamp).Sublist (rows.map stamp)) : Kept stamp cap others := by
  refine ⟨?_, ?_⟩
  · have ordered : (rows.map stamp).Pairwise fun a b => b ≤ a := List.pairwise_map.mpr kept.ordered
    exact List.pairwise_map.mp (ordered.sublist stamps)
  · have lengths := stamps.length_le
    rw [List.length_map, List.length_map] at lengths
    exact lengths.trans kept.capped

theorem Step.kept (step : Step stamp cap top rows event others) (kept : Kept stamp cap rows) : Kept stamp cap others := by
  cases step with
  | load small part => exact (kept_newest stamp cap _).sublist part
  | use stamped member others => exact kept_newest stamp cap _
  | quiet stamps => exact kept_of_stamps kept stamps

/-- What was just used is there, and first. -/
theorem Step.first (step : Step stamp cap top rows (.use row now) others) (kept : Kept stamp cap rows) (room : 0 < cap) :
    others.head? = some row := by
  cases step with
  | use stamped member others =>
    refine head?_newest room member fun other there => (others other there).imp_right ?_
    rintro ⟨old, before, same⟩
    rw [← same, stamped]
    exact kept.lt_above now before

/-- A use passes the latest stamp by one at most, unless the clock does. -/
theorem Step.bound {most : Int} (step : Step stamp cap top rows event others) (high : top ≤ most)
    (small : ∀ row ∈ rows, stamp row ≤ most) (clock : ∀ row now, event = .use row now → now ≤ top) :
    ∀ row ∈ others, stamp row ≤ most + match event with
      | .use _ _ => 1
      | _ => 0 := by
  intro row member
  cases step with
  | load loaded part => simpa using (loaded row (mem_of_mem_newest (part.subset member))).trans high
  | @use changed used now stamped there kept =>
    have limit : above stamp now rows ≤ most + 1 := by
      have reading := clock used now rfl
      cases rows with
      | nil => exact (reading.trans high).trans (by omega)
      | cons first rest =>
        have top_ := small first List.mem_cons_self
        rw [above]
        omega
    rcases kept row (mem_of_mem_newest member) with rfl | ⟨old, before, same⟩
    · exact stamped ▸ limit
    · have old_ := small old before
      dsimp only
      omega
  | quiet stamps =>
    obtain ⟨old, before, same⟩ := List.mem_map.mp (stamps.subset (List.mem_map_of_mem (f := stamp) member))
    simpa using same ▸ small old before

theorem kept_run (run : Run (Step stamp cap top) rows ms others) (kept : Kept stamp cap rows) :
    ∀ m ∈ ms, Kept stamp cap m.before ∧ Kept stamp cap m.after := by
  refine (Run.invariant (P := Kept stamp cap) (Q := fun _ => True) (fun m _ step before => step.kept before) run
    (fun _ _ => trivial) kept).2

/-- Over a run the stamps grow by one for each use at most. -/
theorem bound_run {most : Int} (run : Run (Step stamp cap top) rows ms others) (high : top ≤ most)
    (small : ∀ row ∈ rows, stamp row ≤ most) (clock : ∀ m ∈ ms, ∀ row now, m.input = .use row now → now ≤ top) :
    ∀ m ∈ ms, ∀ row now, m.input = .use row now → ∀ old ∈ m.before, stamp old + 1 ≤ most + uses ms := by
  induction run generalizing most with
  | nil => exact fun _ absent => nomatch absent
  | @cons s t u i ms step _ ih =>
    have after := step.bound high small (clock _ List.mem_cons_self)
    have later := fun m member => clock m (List.mem_cons_of_mem _ member)
    intro m member row now used old before
    cases i with
    | use first reading =>
      have count : uses (⟨s, .use first reading, t⟩ :: ms) = uses ms + 1 := rfl
      rcases List.mem_cons.mp member with rfl | rest
      · have old_ := small old before
        rw [count]
        omega
      · have limit := @ih (most + 1) (by omega) after later m rest row now used old before
        rw [count]
        omega
    | load | quiet =>
      rcases List.mem_cons.mp member with rfl | rest
      · cases used
      · exact ih high (by simpa using after) later m rest row now used old before

end Braidcast.Lib.Recent
