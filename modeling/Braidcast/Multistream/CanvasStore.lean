import Braidcast.Lib.Lists

/-!
# The canvas definitions and their numbers

`CanvasStore` owns the list of canvas definitions. Of a definition only what the store
reads is kept: its id, its name, whether it is the base canvas, and its number, which is a
`uint32_t` with 0 for unassigned. A new id is an input, as it comes from `UuidUtil::New`.
-/
namespace Braidcast.Multistream

structure CanvasDefinition where
  uuid : String
  name : String
  isDefault : Bool := false
  number : Nat := 0

/-- One element of the array in `canvases.json`; a missing number reads as 0. -/
structure CanvasData where
  uuid : String
  name : String
  isDefault : Bool
  number : Int

def CanvasDefinition.toData (canvas : CanvasDefinition) : CanvasData :=
  ⟨canvas.uuid, canvas.name, canvas.isDefault, canvas.number⟩

def CanvasDefinition.fromData (data : CanvasData) : CanvasDefinition :=
  ⟨data.uuid, data.name, data.isDefault, (data.number % 2 ^ 32).toNat⟩

abbrev Definitions := List CanvasDefinition

namespace Definitions

def toJson (definitions : Definitions) : List CanvasData :=
  definitions.map CanvasDefinition.toData

/-- The first base canvas is called `Main`, whatever the file says. -/
def renameDefault : Definitions → Definitions
  | [] => []
  | canvas :: rest => if canvas.isDefault then { canvas with name := "Main" } :: rest else canvas :: renameDefault rest

def hasDefault (definitions : Definitions) : Bool :=
  definitions.any (·.isDefault)

def ensureDefault (newUuid : String) (definitions : Definitions) : Definitions :=
  if hasDefault definitions then
    renameDefault definitions
  else
    { uuid := newUuid, name := "Main", isDefault := true, number := 1 } :: definitions

def used (definitions : Definitions) : List Nat :=
  (definitions.map (·.number)).filter (· ≠ 0)

/-- The first base canvas without a number takes 1. -/
def giveOne : Definitions → Definitions
  | [] => []
  | canvas :: rest =>
    if canvas.isDefault && canvas.number = 0 then { canvas with number := 1 } :: rest else canvas :: giveOne rest

def highest (definitions : Definitions) : Nat :=
  (definitions.map (·.number)).foldr max 0

/-- Every canvas without a number takes the next one, counted in 32 bits. -/
def numberFrom (last : Nat) : Definitions → Definitions
  | [] => []
  | canvas :: rest =>
    if canvas.number = 0 then
      { canvas with number := (last + 1) % 2 ^ 32 } :: numberFrom ((last + 1) % 2 ^ 32) rest
    else
      canvas :: numberFrom last rest

def assignNumbers (definitions : Definitions) : Definitions :=
  if 1 ∈ used definitions then
    numberFrom (highest definitions) definitions
  else
    numberFrom (highest (giveOne definitions)) (giveOne definitions)

def fromJson (newUuid : String) (items : List CanvasData) : Definitions :=
  assignNumbers (ensureDefault newUuid (items.map CanvasDefinition.fromData))

def add (newUuid : String) (canvas : CanvasDefinition) (definitions : Definitions) : Definitions :=
  definitions ++ [{ canvas with
    uuid := if canvas.uuid = "" then newUuid else canvas.uuid
    number := if canvas.number = 0 then (highest definitions + 1) % 2 ^ 32 else canvas.number }]

def remove (uuid : String) : Definitions → Definitions
  | [] => []
  | canvas :: rest =>
    if canvas.uuid = uuid then
      if canvas.isDefault then canvas :: rest else rest
    else canvas :: remove uuid rest

/-- `ReorderByUuid`: for each id the first canvas not yet moved; the rest keep their order. -/
def reorder (definitions : Definitions) : List String → Definitions
  | [] => definitions
  | uuid :: order =>
    match definitions.find? (·.uuid = uuid) with
    | some canvas => canvas :: reorder (definitions.eraseP (·.uuid = uuid)) order
    | none => reorder definitions order

/-- What each canvas is known by, and the number it bears. -/
def named (definitions : Definitions) : List (String × Nat) :=
  definitions.map fun canvas => (canvas.uuid, canvas.number)

def numbers (definitions : Definitions) : List Nat :=
  definitions.map (·.number)

/-! ### What the operations do to the numbers -/

theorem numbers_eq_named (definitions : Definitions) : numbers definitions = (named definitions).map Prod.snd := by
  simp [numbers, named]

variable {definitions : Definitions}

theorem le_highest {n : Nat} (member : n ∈ numbers definitions) : n ≤ highest definitions := by
  induction definitions with
  | nil => cases member
  | cons canvas rest ih =>
    simp only [numbers, highest, List.map_cons, List.foldr_cons] at ih member ⊢
    rcases List.mem_cons.mp member with rfl | later
    · exact Nat.le_max_left _ _
    · exact Nat.le_trans (ih later) (Nat.le_max_right _ _)

theorem named_renameDefault (definitions : Definitions) : named (renameDefault definitions) = named definitions := by
  induction definitions with
  | nil => rfl
  | cons canvas rest ih =>
    simp only [renameDefault]
    split
    · rfl
    · simp only [named, List.map_cons] at ih ⊢
      rw [ih]

theorem hasDefault_renameDefault (definitions : Definitions) :
    hasDefault (renameDefault definitions) = hasDefault definitions := by
  induction definitions with
  | nil => rfl
  | cons canvas rest ih =>
    simp only [renameDefault]
    split
    next isDefault => simp [hasDefault, isDefault]
    · simp only [hasDefault, List.any_cons] at ih ⊢
      rw [ih]

theorem hasDefault_ensureDefault (newUuid : String) (definitions : Definitions) :
    hasDefault (ensureDefault newUuid definitions) = true := by
  simp only [ensureDefault]
  split
  next found => rw [hasDefault_renameDefault, found]
  · rfl

theorem hasDefault_giveOne (definitions : Definitions) : hasDefault (giveOne definitions) = hasDefault definitions := by
  induction definitions with
  | nil => rfl
  | cons canvas rest ih =>
    simp only [giveOne]
    split
    · rfl
    · simp only [hasDefault, List.any_cons] at ih ⊢
      rw [ih]

theorem hasDefault_numberFrom (last : Nat) (definitions : Definitions) :
    hasDefault (numberFrom last definitions) = hasDefault definitions := by
  induction definitions generalizing last with
  | nil => rfl
  | cons canvas rest ih =>
    simp only [numberFrom]
    simp only [hasDefault] at ih
    split <;> simp [hasDefault, ih]

theorem hasDefault_fromJson (newUuid : String) (items : List CanvasData) :
    hasDefault (fromJson newUuid items) = true := by
  simp only [fromJson, assignNumbers]
  split <;> simp only [hasDefault_numberFrom, hasDefault_giveOne, hasDefault_ensureDefault]

theorem hasDefault_add (newUuid : String) (canvas : CanvasDefinition)
    (found : hasDefault definitions = true) : hasDefault (add newUuid canvas definitions) = true := by
  simp only [hasDefault] at found
  simp only [hasDefault, add]
  rw [List.any_append, found, Bool.true_or]

theorem hasDefault_remove (uuid : String) (found : hasDefault definitions = true) :
    hasDefault (remove uuid definitions) = true := by
  induction definitions with
  | nil => cases found
  | cons canvas rest ih =>
    simp only [hasDefault, List.any_cons, Bool.or_eq_true] at found ih ⊢
    simp only [remove]
    -- the base canvas is the one that is not removed
    split
    · split
      next isDefault => simp [isDefault]
      next other =>
        rcases found with isDefault | later
        · exact absurd isDefault other
        · exact later
    · rw [List.any_cons, Bool.or_eq_true]
      exact found.imp_right ih

theorem remove_sublist (uuid : String) (definitions : Definitions) : (remove uuid definitions).Sublist definitions := by
  induction definitions with
  | nil => exact List.Sublist.refl _
  | cons canvas rest ih =>
    simp only [remove]
    split
    · split
      · exact List.Sublist.refl _
      · exact List.sublist_cons_self _ _
    · exact ih.cons_cons _

theorem reorder_perm (definitions : Definitions) (order : List String) : (reorder definitions order).Perm definitions := by
  induction order generalizing definitions with
  | nil => exact List.Perm.refl _
  | cons uuid order ih =>
    simp only [reorder]
    split
    next canvas found => exact ((ih _).cons _).trans (Lib.perm_cons_eraseP found).symm
    · exact ih definitions

/-! ### Numbering -/

def unnumbered (definitions : Definitions) : Nat :=
  definitions.countP (·.number = 0)

theorem mem_used {n : Nat} : n ∈ used definitions ↔ n ∈ numbers definitions ∧ n ≠ 0 := by
  simp [used, numbers, List.mem_filter]

/-- A number after the filling is an old one, or one of those counted off from `last`. -/
theorem mem_numberFrom {last n : Nat} (room : last + unnumbered definitions < 2 ^ 32)
    (member : n ∈ numbers (numberFrom last definitions)) :
    n ∈ used definitions ∨ (last < n ∧ n ≤ last + unnumbered definitions) := by
  induction definitions generalizing last with
  | nil => cases member
  | cons canvas rest ih =>
    simp only [numberFrom] at member
    simp only [unnumbered, List.countP_cons, decide_eq_true_eq] at room ⊢
    split at member
    next missing =>
      simp only [missing, if_true] at room ⊢
      -- `uint32_t` has room for every number counted off
      have counts : (last + 1) % 2 ^ 32 = last + 1 := Nat.mod_eq_of_lt (by omega)
      rw [counts] at member
      rcases List.mem_cons.mp member with rfl | later
      · right
        simp only
        omega
      · rcases ih (by unfold unnumbered; omega) later with old | ⟨above, below⟩
        · left
          rw [mem_used] at old ⊢
          exact ⟨List.mem_cons_of_mem _ old.1, old.2⟩
        · right
          simp only [unnumbered] at below
          omega
    next has =>
      simp only [has, if_false, Nat.add_zero] at room ⊢
      rcases List.mem_cons.mp member with rfl | later
      · left
        rw [mem_used]
        exact ⟨List.mem_cons_self, has⟩
      · rcases ih room later with old | new
        · left
          rw [mem_used] at old ⊢
          exact ⟨List.mem_cons_of_mem _ old.1, old.2⟩
        · exact .inr new

variable {canvas : CanvasDefinition}

theorem used_cons_zero {rest : Definitions} (missing : canvas.number = 0) :
    used (canvas :: rest) = used rest := by
  simp [used, missing]

theorem used_cons_pos {rest : Definitions} (has : canvas.number ≠ 0) :
    used (canvas :: rest) = canvas.number :: used rest := by
  simp [used, has]

theorem nodup_numberFrom {last : Nat} (distinct : (used definitions).Nodup)
    (below : ∀ n ∈ used definitions, n ≤ last) (room : last + unnumbered definitions < 2 ^ 32) :
    (numbers (numberFrom last definitions)).Nodup := by
  induction definitions generalizing last with
  | nil => exact List.nodup_nil
  | cons canvas rest ih =>
    simp only [unnumbered, List.countP_cons, decide_eq_true_eq] at room
    simp only [numberFrom]
    split
    next missing =>
      rw [used_cons_zero missing] at distinct below
      simp only [missing, if_true] at room
      have counts : (last + 1) % 2 ^ 32 = last + 1 := Nat.mod_eq_of_lt (by omega)
      have room' : last + 1 + unnumbered rest < 2 ^ 32 := by
        simp only [unnumbered]
        omega
      rw [counts]
      refine List.nodup_cons.mpr ⟨?_, ih distinct (fun n member => Nat.le_succ_of_le (below n member)) room'⟩
      -- the canvas's number is above every old one and below every later one
      intro again
      rcases mem_numberFrom room' again with old | ⟨above, _⟩
      · exact absurd (below _ old) (by simp)
      · exact absurd above (by simp)
    next has =>
      rw [used_cons_pos has] at distinct below
      simp only [has, if_false, Nat.add_zero] at room
      obtain ⟨fresh, distinct⟩ := List.nodup_cons.mp distinct
      refine List.nodup_cons.mpr ⟨?_, ih distinct (fun n member => below n (List.mem_cons_of_mem _ member)) room⟩
      intro again
      -- a later canvas has an old number other than this one, or one above all old ones
      rcases mem_numberFrom room again with old | ⟨above, _⟩
      · exact fresh old
      · exact absurd (below _ List.mem_cons_self) (by simpa using above)

theorem mem_used_giveOne {n : Nat} (member : n ∈ used (giveOne definitions)) :
    n ∈ used definitions ∨ (n = 1 ∧ 0 < unnumbered definitions) := by
  induction definitions with
  | nil => cases member
  | cons canvas rest ih =>
    simp only [giveOne] at member
    split at member
    next takes =>
      rw [Bool.and_eq_true, decide_eq_true_eq] at takes
      rw [used_cons_pos (by simp)] at member
      rcases List.mem_cons.mp member with rfl | later
      · exact .inr ⟨rfl, by simp [unnumbered, takes.2]⟩
      · left
        rw [used_cons_zero takes.2]
        exact later
    · by_cases missing : canvas.number = 0
      · rw [used_cons_zero missing] at member ⊢
        rcases ih member with old | ⟨one, some⟩
        · exact .inl old
        · exact .inr ⟨one, by simp [unnumbered, missing]⟩
      · rw [used_cons_pos missing] at member ⊢
        rcases List.mem_cons.mp member with rfl | later
        · exact .inl List.mem_cons_self
        · rcases ih later with old | ⟨one, some⟩
          · exact .inl (List.mem_cons_of_mem _ old)
          · refine .inr ⟨one, ?_⟩
            simpa [unnumbered, List.countP_cons, missing] using some

theorem nodup_giveOne (distinct : (used definitions).Nodup) (free : 1 ∉ used definitions) :
    (used (giveOne definitions)).Nodup := by
  induction definitions with
  | nil => exact List.nodup_nil
  | cons canvas rest ih =>
    simp only [giveOne]
    split
    next takes =>
      rw [Bool.and_eq_true, decide_eq_true_eq] at takes
      rw [used_cons_zero takes.2] at distinct free
      rw [used_cons_pos (by simp)]
      exact List.nodup_cons.mpr ⟨free, distinct⟩
    · by_cases missing : canvas.number = 0
      · rw [used_cons_zero missing] at distinct free ⊢
        exact ih distinct free
      · rw [used_cons_pos missing] at distinct free ⊢
        obtain ⟨fresh, distinct⟩ := List.nodup_cons.mp distinct
        rw [List.mem_cons, not_or] at free
        refine List.nodup_cons.mpr ⟨?_, ih distinct free.2⟩
        intro again
        -- number 1 was free, so the base canvas takes it from nobody
        rcases mem_used_giveOne again with old | ⟨one, _⟩
        · exact fresh old
        · exact free.1 one.symm

theorem highest_le {bound : Nat} (below : ∀ n ∈ used definitions, n ≤ bound) :
    highest definitions ≤ bound := by
  induction definitions with
  | nil => exact Nat.zero_le _
  | cons canvas rest ih =>
    have step : highest (canvas :: rest) = max canvas.number (highest rest) := rfl
    rw [step, Nat.max_le]
    by_cases missing : canvas.number = 0
    · rw [used_cons_zero missing] at below
      exact ⟨by omega, ih below⟩
    · rw [used_cons_pos missing] at below
      exact ⟨below _ List.mem_cons_self, ih fun n member => below n (List.mem_cons_of_mem _ member)⟩

theorem giveOne_or (definitions : Definitions) :
    giveOne definitions = definitions ∨ unnumbered (giveOne definitions) + 1 = unnumbered definitions := by
  induction definitions with
  | nil => exact .inl rfl
  | cons canvas rest ih =>
    simp only [giveOne]
    split
    next takes =>
      rw [Bool.and_eq_true, decide_eq_true_eq] at takes
      right
      simp [unnumbered, takes.2]
    · rcases ih with same | fewer
      · exact .inl (by rw [same])
      · right
        simp only [unnumbered, List.countP_cons] at fewer ⊢
        omega

theorem room_giveOne :
    highest (giveOne definitions) + unnumbered (giveOne definitions) ≤ highest definitions + unnumbered definitions := by
  rcases giveOne_or definitions with same | fewer
  · exact Nat.le_of_eq (by rw [same])
  -- one canvas less to number, and the highest number grows by one at most
  · have bound : highest (giveOne definitions) ≤ max 1 (highest definitions) := by
      apply highest_le
      intro n member
      rcases mem_used_giveOne member with old | ⟨one, _⟩
      · exact Nat.le_trans (le_highest (mem_used.mp old).1) (Nat.le_max_right _ _)
      · rw [one]
        exact Nat.le_max_left _ _
    omega

/-- Numbered by `numberFrom`, from the highest number there is. -/
theorem numberFrom_highest (distinct : (used definitions).Nodup) (room : highest definitions + unnumbered definitions < 2 ^ 32) :
    (numbers (numberFrom (highest definitions) definitions)).Nodup ∧
      ∀ n ∈ numbers (numberFrom (highest definitions) definitions), 0 < n ∧ n < 2 ^ 32 := by
  have below : ∀ n ∈ used definitions, n ≤ highest definitions := fun n member => le_highest (mem_used.mp member).1
  refine ⟨nodup_numberFrom distinct below room, ?_⟩
  intro n member
  rcases mem_numberFrom room member with old | ⟨above, bounded⟩
  · have := below n old
    have := (mem_used.mp old).2
    omega
  · omega

theorem numbers_assignNumbers (distinct : (used definitions).Nodup)
    (room : highest definitions + unnumbered definitions < 2 ^ 32) :
    (numbers (assignNumbers definitions)).Nodup ∧ ∀ n ∈ numbers (assignNumbers definitions), 0 < n ∧ n < 2 ^ 32 := by
  simp only [assignNumbers]
  split
  · exact numberFrom_highest distinct room
  next free => exact numberFrom_highest (nodup_giveOne distinct free) (Nat.lt_of_le_of_lt room_giveOne room)

/-! ### A list with every number in place -/

section

variable (numbered : ∀ n ∈ numbers definitions, 0 < n)
include numbered

theorem numberFrom_of_numbered {last : Nat} :
    numberFrom last definitions = definitions := by
  induction definitions with
  | nil => rfl
  | cons canvas rest ih =>
    have has : canvas.number ≠ 0 := Nat.pos_iff_ne_zero.mp (numbered _ List.mem_cons_self)
    simp only [numberFrom]
    rw [if_neg has, ih fun n member => numbered n (List.mem_cons_of_mem _ member)]

theorem giveOne_of_numbered :
    giveOne definitions = definitions := by
  induction definitions with
  | nil => rfl
  | cons canvas rest ih =>
    have has : canvas.number ≠ 0 := Nat.pos_iff_ne_zero.mp (numbered _ List.mem_cons_self)
    simp only [giveOne]
    rw [if_neg (by simp [has]), ih fun n member => numbered n (List.mem_cons_of_mem _ member)]

theorem assignNumbers_of_numbered :
    assignNumbers definitions = definitions := by
  simp only [assignNumbers]
  rw [giveOne_of_numbered numbered, numberFrom_of_numbered numbered, ite_self]

end

theorem fromData_toData (bounded : canvas.number < 2 ^ 32) :
    CanvasDefinition.fromData canvas.toData = canvas := by
  -- the number goes through a signed field of the file and back
  have unsigned : ((canvas.number : Int) % 2 ^ 32).toNat = canvas.number := by
    rw [Int.emod_eq_of_lt (by omega) (by omega)]
    exact Int.toNat_natCast _
  simp only [CanvasDefinition.fromData, CanvasDefinition.toData]
  rw [unsigned]

theorem fromData_toJson (bounded : ∀ n ∈ numbers definitions, n < 2 ^ 32) :
    (toJson definitions).map CanvasDefinition.fromData = definitions := by
  simp only [toJson]
  rw [List.map_map]
  conv_rhs => rw [← List.map_id definitions]
  apply List.map_congr_left
  intro canvas member
  exact fromData_toData (bounded _ (List.mem_map_of_mem member))

/-- What a store wrote reads back with the same canvases under the same numbers. -/
theorem named_fromJson_toJson (newUuid : String) (found : hasDefault definitions = true)
    (numbered : ∀ n ∈ numbers definitions, 0 < n ∧ n < 2 ^ 32) :
    named (fromJson newUuid (toJson definitions)) = named definitions := by
  simp only [fromJson, ensureDefault]
  rw [fromData_toJson fun n member => (numbered n member).2, if_pos found, assignNumbers_of_numbered, named_renameDefault]
  rw [numbers_eq_named, named_renameDefault, ← numbers_eq_named]
  exact fun n member => (numbered n member).1

/-- Where there is a base canvas, the new id plays no part. -/
theorem fromJson_of_hasDefault {items : List CanvasData} (found : hasDefault (items.map CanvasDefinition.fromData) = true)
    (newUuid newUuid' : String) : fromJson newUuid items = fromJson newUuid' items := by
  simp only [fromJson, ensureDefault]
  rw [if_pos found, if_pos found]

end Definitions

end Braidcast.Multistream
