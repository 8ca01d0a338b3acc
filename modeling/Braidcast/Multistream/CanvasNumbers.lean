import Braidcast.Lib.Run
import Braidcast.Multistream.Freshness
import Braidcast.Multistream.CanvasStore

/-!
# Canvas numbers over whole histories

A history is a sequence of processes on one `canvases.json`, each of which loads the file
first. `issued` records every number any canvas has ever borne. The base canvas that the
constructor seeds stands only until that load and is not recorded.
-/
namespace Braidcast.Multistream

open Lib Durable Definitions

structure Canvases where
  definitions : Definitions := []
  files : StoreFiles (List CanvasData)
  running : Bool := false
  issued : List (String × Nat) := []

inductive CanvasCall
  | add (newUuid : String) (canvas : CanvasDefinition)
  | remove (uuid : String)
  | reorder (order : List String)
  | save (os : SaveAnswers) (stop : Option Nat)
  | load (newUuid : String)
  | exit

namespace Canvases

def install (canvases : Canvases) (definitions : Definitions) : Canvases :=
  { canvases with definitions := definitions, issued := canvases.issued ++ named definitions }

/-- What the file gives a load; a file that cannot be used gives no canvas. -/
def found (canvases : Canvases) : List CanvasData :=
  (loadSafe canvases.files).2.getD []

def step (canvases : Canvases) : CanvasCall → Option Canvases
  | .add newUuid canvas =>
    if canvases.running then some (canvases.install (add newUuid canvas canvases.definitions)) else none
  | .remove uuid =>
    if canvases.running then some (canvases.install (remove uuid canvases.definitions)) else none
  | .reorder order =>
    if canvases.running then some (canvases.install (reorder canvases.definitions order)) else none
  | .save os stop =>
    if canvases.running then
      ((saveJsonAtomic os (toJson canvases.definitions) canvases.files).until stop).map fun ended =>
        { canvases with files := ended.1, running := ended.2.isSome }
    else none
  | .load newUuid =>
    some { canvases.install (fromJson newUuid canvases.found) with
      files := (loadSafe canvases.files).1, running := true }
  | .exit => if canvases.running then some { canvases with running := false } else none

/-- No number has been given to two canvases, and those present have one each. -/
def NumbersHold (canvases : Canvases) : Prop :=
  (∀ p ∈ canvases.issued, ∀ q ∈ canvases.issued, p.2 = q.2 → p.1 = q.1) ∧
    (numbers canvases.definitions).Nodup ∧ ∀ n ∈ numbers canvases.definitions, 0 < n

/-- A canvas is added while the highest number ever issued is still borne by one that is
there, with 32 bits left for the next; a load finds numbers given once, bits for those it
gives, and a base canvas unless number 1 was never issued. -/
def Careful (canvases : Canvases) : CanvasCall → Prop
  | .add _ canvas =>
    if canvas.number = 0 then
      highest canvases.definitions + 1 < 2 ^ 32 ∧ ∀ p ∈ canvases.issued, p.2 ≤ highest canvases.definitions
    else
      canvas.number < 2 ^ 32 ∧ ∀ p ∈ canvases.issued, p.2 ≠ canvas.number
  | .load newUuid =>
    let read := ensureDefault newUuid (canvases.found.map CanvasDefinition.fromData)
    (used read).Nodup ∧ highest read + unnumbered read < 2 ^ 32 ∧
      (hasDefault (canvases.found.map CanvasDefinition.fromData) = false → ∀ p ∈ canvases.issued, p.2 ≠ 1)
  | _ => True

instance (canvases : Canvases) : (call : CanvasCall) → Decidable (canvases.Careful call)
  | .add _ canvas => inferInstanceAs (Decidable (if canvas.number = 0 then _ else _))
  | .load _ => inferInstanceAs (Decidable (_ ∧ _))
  | .remove _ | .reorder _ | .save _ _ | .exit => inferInstanceAs (Decidable True)

/-! ### The invariant -/

/-- A file that gives no canvas a number it did not have: one with a base canvas names only
what was issued, one without stands for a base canvas already numbered 1. -/
def Known (issued : List (String × Nat)) (items : List CanvasData) : Prop :=
  (hasDefault (items.map CanvasDefinition.fromData) = true → ∀ newUuid, ∀ p ∈ named (fromJson newUuid items), p ∈ issued) ∧
    (hasDefault (items.map CanvasDefinition.fromData) = false → ∃ p ∈ issued, p.2 = 1)

theorem Known.mono {issued issued' : List (String × Nat)} {items : List CanvasData} (known : Known issued items)
    (grows : ∀ p ∈ issued, p ∈ issued') : Known issued' items := by
  refine ⟨fun found newUuid p member => grows p (known.1 found newUuid p member), fun lacks => ?_⟩
  obtain ⟨p, member, one⟩ := known.2 lacks
  exact ⟨p, grows p member, one⟩

structure Sound (canvases : Canvases) : Prop where
  one : ∀ p ∈ canvases.issued, ∀ q ∈ canvases.issued, p.2 = q.2 → p.1 = q.1
  held : ∀ p ∈ named canvases.definitions, p ∈ canvases.issued
  distinct : (numbers canvases.definitions).Nodup
  bounded : ∀ n ∈ numbers canvases.definitions, 0 < n ∧ n < 2 ^ 32
  base : canvases.running = true → hasDefault canvases.definitions = true
  files : (canvases.issued = [] ∧ canvases.files.tmp = none ∧ canvases.running = false) ∨
    Fresh (Known canvases.issued) canvases.files

variable {canvases : Canvases}

theorem Sound.numbersHold (sound : canvases.Sound) : canvases.NumbersHold :=
  ⟨sound.one, sound.distinct, fun n member => (sound.bounded n member).1⟩

variable {definitions : Definitions}

theorem one_of_nodup (distinct : (numbers definitions).Nodup) :
    ∀ p ∈ named definitions, ∀ q ∈ named definitions, p.2 = q.2 → p.1 = q.1 := by
  intro p first q second same
  rw [numbers_eq_named] at distinct
  rw [List.inj_on_of_nodup_map distinct first second same]

theorem mem_numbers_of_mem_named {p : String × Nat} (member : p ∈ named definitions) :
    p.2 ∈ numbers definitions := by
  rw [numbers_eq_named]
  exact List.mem_map_of_mem member

/-- Once a process runs, the file has been loaded. -/
theorem Sound.fresh (sound : canvases.Sound) (running : canvases.running = true) :
    Fresh (Known canvases.issued) canvases.files := by
  rcases sound.files with ⟨_, _, stopped⟩ | fresh
  · rw [running] at stopped
    cases stopped
  · exact fresh

/-- A list whose canvases all were there before takes over without a new number. -/
theorem Sound.keep (sound : canvases.Sound) (running : canvases.running = true)
    (subset : ∀ p ∈ named definitions, p ∈ named canvases.definitions)
    (distinct : (numbers definitions).Nodup) (base : hasDefault definitions = true) :
    (canvases.install definitions).Sound := by
  have held : ∀ p ∈ named definitions, p ∈ canvases.issued := fun p member => sound.held p (subset p member)
  have same : ∀ p, p ∈ canvases.issued ++ named definitions → p ∈ canvases.issued := by
    intro p member
    rcases List.mem_append.mp member with old | new
    · exact old
    · exact held p new
  refine ⟨fun p first q second => sound.one p (same p first) q (same q second),
    fun p member => List.mem_append_right _ member, distinct, ?_, fun _ => base, .inr ?_⟩
  · intro n member
    rw [numbers_eq_named] at member
    obtain ⟨p, there, rfl⟩ := List.mem_map.mp member
    exact sound.bounded p.2 (mem_numbers_of_mem_named (subset p there))
  · exact (sound.fresh running).mono fun items known => known.mono fun p member => List.mem_append_left _ member

/-- A saved list is known: it reads back as it was. -/
theorem Sound.known (sound : canvases.Sound) (running : canvases.running = true) :
    Known canvases.issued (toJson canvases.definitions) := by
  have base := sound.base running
  rw [Known, fromData_toJson fun n member => (sound.bounded n member).2]
  refine ⟨fun _ newUuid p member => ?_, fun lacks => ?_⟩
  · rw [named_fromJson_toJson newUuid base sound.bounded] at member
    exact sound.held p member
  · rw [base] at lacks
    cases lacks

theorem Sound.add {newUuid : String} {canvas : CanvasDefinition} (sound : canvases.Sound)
    (running : canvases.running = true) (careful : canvases.Careful (.add newUuid canvas)) :
    (canvases.install (Definitions.add newUuid canvas canvases.definitions)).Sound := by
  -- the number the canvas gets was never issued
  obtain ⟨number, same, positive, bounded, unissued⟩ : ∃ number,
      number = (if canvas.number = 0 then (highest canvases.definitions + 1) % 2 ^ 32 else canvas.number) ∧
      0 < number ∧ number < 2 ^ 32 ∧ ∀ p ∈ canvases.issued, p.2 ≠ number := by
    simp only [Careful] at careful
    split at careful
    next missing =>
      have counts : (highest canvases.definitions + 1) % 2 ^ 32 = highest canvases.definitions + 1 :=
        Nat.mod_eq_of_lt careful.1
      refine ⟨highest canvases.definitions + 1, by rw [if_pos missing, counts], by omega, careful.1, ?_⟩
      intro p member
      have := careful.2 p member
      omega
    next given => exact ⟨canvas.number, by rw [if_neg given], Nat.pos_of_ne_zero given, careful.1, careful.2⟩
  have numbers' : numbers (Definitions.add newUuid canvas canvases.definitions) = numbers canvases.definitions ++ [number] := by
    rw [same]
    exact List.map_append
  have named' : named (Definitions.add newUuid canvas canvases.definitions) =
      named canvases.definitions ++ [(if canvas.uuid = "" then newUuid else canvas.uuid, number)] := by
    rw [same]
    exact List.map_append
  have listed : ∀ p ∈ named (Definitions.add newUuid canvas canvases.definitions),
      p ∈ canvases.issued ∨ p = (if canvas.uuid = "" then newUuid else canvas.uuid, number) := by
    intro p member
    rw [named'] at member
    rcases List.mem_append.mp member with old | new
    · exact .inl (sound.held p old)
    · exact .inr (List.mem_singleton.mp new)
  have issued : ∀ p ∈ canvases.issued ++ named (Definitions.add newUuid canvas canvases.definitions),
      p ∈ canvases.issued ∨ p = (if canvas.uuid = "" then newUuid else canvas.uuid, number) := by
    intro p member
    rcases List.mem_append.mp member with old | new
    · exact .inl old
    · exact listed p new
  refine ⟨?_, fun p member => List.mem_append_right _ member, ?_, ?_,
    fun _ => hasDefault_add newUuid canvas (sound.base running), .inr ?_⟩
  · intro p first q second same
    -- of two pairs with one number neither or both are the new canvas's
    rcases issued p first with old | rfl <;> rcases issued q second with old' | rfl
    · exact sound.one p old q old' same
    · exact absurd same (unissued p old)
    · exact absurd same.symm (unissued q old')
    · rfl
  · show (numbers (Definitions.add newUuid canvas canvases.definitions)).Nodup
    rw [numbers', List.nodup_append]
    refine ⟨sound.distinct, List.nodup_singleton _, ?_⟩
    intro n member m last
    rw [List.mem_singleton.mp last]
    rw [numbers_eq_named] at member
    obtain ⟨p, there, rfl⟩ := List.mem_map.mp member
    exact unissued p (sound.held p there)
  · show ∀ n ∈ numbers (Definitions.add newUuid canvas canvases.definitions), _
    rw [numbers']
    intro n member
    rcases List.mem_append.mp member with old | new
    · exact sound.bounded n old
    · rw [List.mem_singleton.mp new]
      exact ⟨positive, bounded⟩
  · exact (sound.fresh running).mono fun items known => known.mono fun p member => List.mem_append_left _ member

/-- The base canvas seeded where the file has none bears number 1. -/
theorem one_mem_fromJson {items : List CanvasData} (lacks : hasDefault (items.map CanvasDefinition.fromData) = false)
    (newUuid : String) : (newUuid, 1) ∈ named (fromJson newUuid items) := by
  simp only [fromJson, ensureDefault]
  rw [if_neg (by simp [lacks]), assignNumbers, if_pos (by simp [used]), numberFrom, if_neg (by simp)]
  exact List.mem_cons_self

theorem known_fromJson (newUuid : String) (items : List CanvasData) :
    Known (named (fromJson newUuid items)) items := by
  constructor
  · intro found newUuid' p member
    rw [fromJson_of_hasDefault found newUuid newUuid']
    exact member
  · intro lacks
    exact ⟨_, one_mem_fromJson lacks newUuid, rfl⟩

theorem Sound.load {canvases next : Canvases} {newUuid : String} (sound : canvases.Sound)
    (careful : canvases.Careful (.load newUuid)) (step : canvases.step (.load newUuid) = some next) : next.Sound := by
  obtain ⟨given, room, unseeded⟩ := careful
  obtain ⟨distinct, bounded⟩ := numbers_assignNumbers given room
  change (numbers (fromJson newUuid canvases.found)).Nodup at distinct
  have grows : ∀ p ∈ canvases.issued, p ∈ canvases.issued ++ named (fromJson newUuid canvases.found) :=
    fun p member => List.mem_append_left _ member
  have files : Fresh (Known (canvases.issued ++ named (fromJson newUuid canvases.found))) (loadSafe canvases.files).1 := by
    rcases sound.files with ⟨_, noTmp, _⟩ | fresh
    -- the first load of all: what it yields names what was issued by it
    · apply (fresh_load noTmp).mono
      intro items yielded
      have same : canvases.found = items := by simp [found, yielded]
      rw [same]
      exact (known_fromJson newUuid items).mono fun p member => List.mem_append_right _ member
    · exact fresh.load.1.mono fun items known => known.mono grows
  -- a pair the load brings is an old one, or its number is not an old one's
  have one : ∀ p ∈ named (fromJson newUuid canvases.found), ∀ q ∈ canvases.issued, p.2 = q.2 → p.1 = q.1 := by
    intro p new q old same
    rcases sound.files with ⟨none, _, _⟩ | fresh
    · rw [none] at old
      cases old
    -- with a base canvas the file names only what was issued; without, number 1 is given out anew
    · cases base : hasDefault (canvases.found.map CanvasDefinition.fromData) with
      | true =>
        cases yielded : (loadSafe canvases.files).2 with
        | none => simp [found, yielded, hasDefault] at base
        | some items =>
          have read : canvases.found = items := by simp [found, yielded]
          rw [read] at base new
          exact sound.one p ((fresh.load.2 items yielded).1 base newUuid p new) q old same
      | false =>
        cases yielded : (loadSafe canvases.files).2 with
        | none =>
          have read : canvases.found = [] := by simp [found, yielded]
          rw [read] at new
          -- nothing usable was found: the seeded base canvas is the only one
          have only : p = (newUuid, 1) := by
            simpa [fromJson, ensureDefault, hasDefault, assignNumbers, used, numberFrom, named] using new
          subst only
          exact absurd same.symm (unseeded base q old)
        | some items =>
          have read : canvases.found = items := by simp [found, yielded]
          obtain ⟨r, member, isOne⟩ := (fresh.load.2 items yielded).2 (read ▸ base)
          exact absurd isOne (unseeded base r member)
  rw [← Option.some.inj step]
  refine ⟨?_, fun p member => List.mem_append_right _ member, distinct, bounded, fun _ => hasDefault_fromJson _ _, .inr files⟩
  intro p first q second same
  rcases List.mem_append.mp first with old | new <;> rcases List.mem_append.mp second with old' | new'
  · exact sound.one p old q old' same
  · exact (one q new' p old same.symm).symm
  · exact one p new q old' same
  · exact one_of_nodup distinct p new q new' same

theorem Sound.step {canvases next : Canvases} {call : CanvasCall} (sound : canvases.Sound)
    (careful : canvases.Careful call) (step : canvases.step call = some next) : next.Sound := by
  cases call
  case load => exact sound.load careful step
  all_goals
    simp only [Canvases.step] at step
    split at step
  case save.isTrue os stop running =>
    obtain ⟨⟨files, result⟩, ended, same⟩ := Option.map_eq_some_iff.mp step
    have kept := ((saveJsonAtomic_fresh os (sound.known running)).until (fun _ _ h => h) (sound.fresh running) ended).1
    rw [← same]
    exact ⟨sound.one, sound.held, sound.distinct, sound.bounded, fun _ => sound.base running, .inr kept⟩
  all_goals cases step
  case add.isTrue running => exact sound.add running careful
  case remove.isTrue uuid running =>
    -- the numbers of those that stay are as they were
    have sub := remove_sublist uuid canvases.definitions
    exact sound.keep running (fun p member => (sub.map _).subset member) (sound.distinct.sublist (sub.map _))
      (hasDefault_remove uuid (sound.base running))
  case reorder.isTrue order running =>
    have perm := reorder_perm canvases.definitions order
    refine sound.keep running (fun p member => (perm.map _).subset member) ((perm.map _).nodup_iff.mpr sound.distinct) ?_
    simp only [hasDefault]
    rw [perm.any_eq]
    exact sound.base running
  case exit.isTrue running =>
    exact ⟨sound.one, sound.held, sound.distinct, sound.bounded, by simp, .inr (sound.fresh running)⟩

/-! ### Whole histories -/

/-- In every history in which each canvas is added while the highest number ever issued is
still there, and each load finds a usable file, no number is given to two canvases. -/
theorem numbers_never_reissued {target bak : Option (Content (List CanvasData))} {ms : List (Moment Canvases CanvasCall)}
    {u : Canvases} (run : Run (fun s c t => s.step c = some t) { files := { target, bak } } ms u)
    (careful : ∀ m ∈ ms, m.before.Careful m.input) :
    u.NumbersHold ∧ ∀ m ∈ ms, m.before.NumbersHold ∧ m.after.NumbersHold := by
  have start : ({ files := { target, bak } } : Canvases).Sound :=
    ⟨by simp, by simp [named], List.nodup_nil, by simp [numbers], by simp, .inl ⟨rfl, rfl, rfl⟩⟩
  obtain ⟨last, each⟩ := Run.invariant (P := Sound) (Q := fun m => m.before.Careful m.input)
    (fun m careful step sound => sound.step careful step) run careful start
  exact ⟨last.numbersHold, fun m member => ⟨(each m member).1.numbersHold, (each m member).2.numbersHold⟩⟩

/-- Two canvases added, the first removed, and a third added after a restart. -/
def carefulCalls : List CanvasCall :=
  [.load "base", .add "a" { uuid := "", name := "Vertical" }, .add "b" { uuid := "", name := "Square" },
    .remove "a", .save { write := .written, replace := fun _ => ⟨.replaced, none⟩ } none, .exit, .load "unused",
    .add "c" { uuid := "", name := "Wide" }]

theorem numbers_never_reissued_over_restart : ∃ (ms : List (Moment Canvases CanvasCall)) (u : Canvases),
    Run (fun s c t => s.step c = some t) { files := {} } ms u ∧ (∀ m ∈ ms, m.before.Careful m.input) ∧
    named u.definitions = [("base", 1), ("b", 3), ("c", 4)] ∧ u.NumbersHold := by
  obtain ⟨ms, u, run, shown⟩ := exists_run_of_follow step { files := {} } carefulCalls
    (fun ms u => ms.all (fun m => m.before.Careful m.input) && named u.definitions = [("base", 1), ("b", 3), ("c", 4)])
    (by decide)
  rw [Bool.and_eq_true, List.all_eq_true] at shown
  have careful : ∀ m ∈ ms, m.before.Careful m.input := fun m member => of_decide_eq_true (shown.1 m member)
  exact ⟨ms, u, run, careful, of_decide_eq_true shown.2, (numbers_never_reissued run careful).1⟩

/-- A canvas added, removed and another added: both were called 2. -/
theorem number_reissued_after_remove :
    ¬ ∀ (target bak : Option (Content (List CanvasData))) (ms : List (Moment Canvases CanvasCall)) (u : Canvases),
      Run (fun s c t => s.step c = some t) { files := { target, bak } } ms u → u.NumbersHold := by
  intro claimed
  obtain ⟨ms, u, run, shown⟩ := exists_run_of_follow step { files := {} }
    [.load "base", .add "a" { uuid := "", name := "Vertical" }, .remove "a", .add "b" { uuid := "", name := "Square" }]
    (fun _ u => u.issued.contains ("a", 2) && u.issued.contains ("b", 2)) (by decide)
  rw [Bool.and_eq_true, List.contains_iff_mem, List.contains_iff_mem] at shown
  have same := (claimed none none ms u run).1 _ shown.1 _ shown.2 rfl
  exact absurd same (by decide)

end Canvases

end Braidcast.Multistream
