import Braidcast.Lib.Lists

/-!
# Counted cells

Cells that count the references to them. A cell is freed when its last reference is released,
and what it held is released in turn. The counts are exact when each is the number of
references to the cell, those held in cells and those held outside.
-/
namespace Braidcast.Lib

/-- A cell that is not freed. -/
structure Cell (β : Type) where
  count : Nat
  body : β

/-- All cells ever made, by address; a freed one is `none`. -/
abbrev Cells (β : Type) := List (Option (Cell β))

/-- What references are, and what the body of a cell has to do with them. -/
structure Holding (ρ β : Type) where
  address : ρ → Nat
  /-- May the body be reached through the reference? -/
  fits : ρ → β → Bool
  /-- The references a body holds. -/
  held : β → List ρ
  /-- The references released with the body, where that goes well. -/
  drops : β → Option (List ρ)

namespace Holding

variable {ρ β : Type} (H : Holding ρ β)

def heldBy : Option (Cell β) → List ρ
  | some cell => H.held cell.body
  | none => []

def holders (h : Cells β) : List ρ := h.flatMap H.heldBy

/-- The cell behind a reference; `none` for one that is freed or of another kind. -/
def deref (h : Cells β) (r : ρ) : Option (Cell β) :=
  match h[H.address r]? with
  | some (some cell) => if H.fits r cell.body then some cell else none
  | _ => none

def addref (h : Cells β) (r : ρ) : Option (Cells β) :=
  (H.deref h r).map fun cell => h.set (H.address r) (some { cell with count := cell.count + 1 })

/-- Releases the references of a stack, and those of every cell that is freed by it. -/
def releaseAll : Nat → List ρ → Cells β → Option (Cells β)
  | _, [], h => some h
  | 0, _ :: _, _ => none
  | n + 1, r :: rest, h => (H.deref h r).bind fun cell =>
    if cell.count = 1 then
      (H.drops cell.body).bind fun dropped => releaseAll n (dropped ++ rest) (h.set (H.address r) none)
    else releaseAll n rest (h.set (H.address r) (some { cell with count := cell.count - 1 }))

/-- Every release takes one reference off the stack or out of a cell, so this many are enough. -/
def release (rs : List ρ) (h : Cells β) : Option (Cells β) := H.releaseAll (rs.length + (H.holders h).length) rs h

/-- The references in cells and `extra`, less those `owed`, are what the cells count. -/
structure Exact (h : Cells β) (extra owed : List ρ) : Prop where
  count : ∀ (i : Nat) (cell : Cell β), h[i]? = some (some cell) →
    cell.count + (owed.map H.address).count i = ((H.holders h ++ extra).map H.address).count i
  live : ∀ r ∈ H.holders h ++ extra, ∃ cell, H.deref h r = some cell
  positive : ∀ (i : Nat) (cell : Cell β), h[i]? = some (some cell) → 0 < cell.count
  sound : ∀ (i : Nat) (cell : Cell β), h[i]? = some (some cell) → ∃ dropped, H.drops cell.body = some dropped ∧ dropped.Perm (H.held cell.body)

variable {H} {h h' : Cells β} {extra extra' owed : List ρ} {r : ρ} {i : Nat} {cell : Cell β} {body : β}

theorem deref_iff : H.deref h r = some cell ↔ h[H.address r]? = some (some cell) ∧ H.fits r cell.body = true := by
  unfold deref
  split
  next found there =>
    rw [there]
    constructor
    · intro same
      split at same
      next fits =>
        cases same
        exact ⟨rfl, fits⟩
      next => cases same
    · rintro ⟨same, fits⟩
      cases same
      exact if_pos fits
  next freed =>
    constructor
    · intro none
      cases none
    · rintro ⟨there, _⟩
      exact absurd there (freed cell)

theorem mem_holders (there : h[i]? = some (some cell)) (held : r ∈ H.held cell.body) : r ∈ H.holders h :=
  List.mem_flatMap.mpr ⟨some cell, List.mem_of_getElem? there, held⟩

/-- Putting another cell in the place of one changes the references by what the two hold. -/
theorem holders_set {old : Option (Cell β)} (new : Option (Cell β)) (there : h[i]? = some old) :
    (H.holders (h.set i new) ++ H.heldBy old).Perm (H.holders h ++ H.heldBy new) := perm_flatMap_set new there

/-- A count is no part of what is held. -/
theorem holders_count {n : Nat} (there : h[i]? = some (some cell)) :
    (H.holders (h.set i (some { cell with count := n }))).Perm (H.holders h) :=
  (List.perm_append_right_iff (H.held cell.body)).mp (holders_set (H := H) (some { cell with count := n }) there)

/-- The same cells, but for their counts. -/
def SameBodies (h h' : Cells β) : Prop := h'.map (Option.map Cell.body) = h.map (Option.map Cell.body)

/-- The same cells, but for their counts and the ones freed. -/
def Less (h h' : Cells β) : Prop :=
  ∀ (i : Nat) (cell' : Cell β), h'[i]? = some (some cell') → ∃ cell : Cell β, h[i]? = some (some cell) ∧ cell'.body = cell.body

theorem set_cases {old : Option (Cell β)} {new : Option (Cell β)} (there : h[i]? = some old) {j : Nat}
    {cell' : Cell β} (after : (h.set i new)[j]? = some (some cell')) :
    (j = i ∧ new = some cell') ∨ (j ≠ i ∧ h[j]? = some (some cell')) := by
  by_cases same : j = i
  · subst same
    rw [List.getElem?_set_self (List.getElem?_eq_some_iff.mp there).1] at after
    exact .inl ⟨rfl, Option.some.inj after⟩
  · rw [List.getElem?_set_ne (Ne.symm same)] at after
    exact .inr ⟨same, after⟩

/-- What is so of the new cell, and was of all, is so once it is set. -/
theorem forall_set {old new : Cell β} (there : h[i]? = some (some old)) {P : Nat → Cell β → Prop} (now : P i new)
    (before : ∀ j cell, h[j]? = some (some cell) → P j cell) : ∀ j cell, (h.set i (some new))[j]? = some (some cell) → P j cell := by
  intro j cell after
  rcases set_cases there after with ⟨rfl, same⟩ | ⟨_, old⟩
  · cases same
    exact now
  · exact before j cell old

theorem SameBodies.symm (same : SameBodies h h') : SameBodies h' h := Eq.symm same

theorem SameBodies.trans {h'' : Cells β} (first : SameBodies h h') (next : SameBodies h' h'') : SameBodies h h'' :=
  Eq.trans next first

theorem SameBodies.holders (same : SameBodies h h') : H.holders h' = H.holders h := by
  have bodies (h : Cells β) : H.holders h =
      (h.map (Option.map Cell.body)).flatMap fun body => body.elim [] H.held := by
    rw [Holding.holders, List.flatMap_map]
    congr 1
    funext cell
    cases cell <;> rfl
  rw [bodies, bodies, same]

theorem SameBodies.at (same : SameBodies h h') {cell' : Cell β} (there : h'[i]? = some (some cell')) :
    ∃ cell : Cell β, h[i]? = some (some cell) ∧ cell'.body = cell.body := by
  have body : (h.map (Option.map Cell.body))[i]? = some (some cell'.body) := by
    rw [← same, List.getElem?_map, there]
    rfl
  rw [List.getElem?_map] at body
  obtain ⟨old, at_, mapped⟩ := Option.map_eq_some_iff.mp body
  obtain ⟨cell, rfl, this⟩ := Option.map_eq_some_iff.mp mapped
  exact ⟨cell, at_, this.symm⟩

/-- Being reached does not depend on the count. -/
theorem deref_set_count {n : Nat} (there : h[i]? = some (some cell)) (live : ∃ cell', H.deref h r = some cell') :
    ∃ cell', H.deref (h.set i (some { cell with count := n })) r = some cell' := by
  obtain ⟨cell', found⟩ := live
  obtain ⟨at_, fits⟩ := deref_iff.mp found
  by_cases same : H.address r = i
  · rw [same, there] at at_
    cases at_
    refine ⟨{ cell with count := n }, deref_iff.mpr ⟨?_, fits⟩⟩
    rw [same, List.getElem?_set_self (List.getElem?_eq_some_iff.mp there).1]
  · refine ⟨cell', deref_iff.mpr ⟨?_, fits⟩⟩
    rw [List.getElem?_set_ne (Ne.symm same)]
    exact at_

/-- Paying off one reference that is owed. -/
theorem Exact.addref (exact : H.Exact h extra (r :: owed)) (listed : r ∈ H.holders h ++ extra) :
    ∃ h', H.addref h r = some h' ∧ H.Exact h' extra owed ∧ SameBodies h h' := by
  obtain ⟨cell, found⟩ := exact.live r listed
  obtain ⟨there, fits⟩ := deref_iff.mp found
  have perm := (holders_count (H := H) (n := cell.count + 1) there).append_right extra
  refine ⟨h.set (H.address r) (some { cell with count := cell.count + 1 }), by rw [Holding.addref, found]; rfl,
    ⟨fun j cell' after => ?_, fun r' member => ?_, forall_set there (Nat.succ_pos _) exact.positive,
      forall_set there (exact.sound _ cell there) exact.sound⟩, ?_⟩
  · rw [(perm.map H.address).count_eq]
    rcases set_cases there after with ⟨rfl, same⟩ | ⟨other, old⟩
    · cases same
      have count := exact.count _ cell there
      rw [List.map_cons, List.count_cons_self] at count
      dsimp only
      omega
    · have count := exact.count j cell' old
      rwa [List.map_cons, List.count_cons_of_ne (Ne.symm other)] at count
  · exact deref_set_count there (exact.live r' (perm.mem_iff.mp member))
  · exact map_set_of_eq there rfl

/-- The order of the references outside does not matter. -/
theorem Exact.perm (exact : H.Exact h extra owed) (perm : extra.Perm extra') : H.Exact h extra' owed where
  count i cell there := by
    rw [← ((perm.append_left _).map H.address).count_eq]
    exact exact.count i cell there
  live r member := exact.live r ((perm.append_left _).mem_iff.mpr member)
  positive := exact.positive
  sound := exact.sound

theorem Less.refl (h : Cells β) : Less h h := fun _ cell there => ⟨cell, there, rfl⟩

theorem Less.trans {h'' : Cells β} (first : Less h h') (next : Less h' h'') : Less h h'' := by
  intro i cell'' there
  obtain ⟨cell', there', same'⟩ := next i cell'' there
  obtain ⟨cell, there, same⟩ := first i cell' there'
  exact ⟨cell, there, same'.trans same⟩

/-- Releasing a reference to a cell with others. -/
theorem Exact.drop (exact : H.Exact h (r :: extra) []) (found : H.deref h r = some cell) (others : cell.count ≠ 1) :
    H.Exact (h.set (H.address r) (some { cell with count := cell.count - 1 })) extra [] := by
  obtain ⟨there, fits⟩ := deref_iff.mp found
  have perm := (holders_count (H := H) (n := cell.count - 1) there).append_right extra
  have whole : (H.holders h ++ r :: extra).Perm (r :: (H.holders h ++ extra)) := List.perm_middle
  have positive := exact.positive _ cell there
  refine ⟨fun j cell' after => ?_, fun r' member => ?_, forall_set there ?_ exact.positive, forall_set there (exact.sound _ cell there) exact.sound⟩
  · rw [(perm.map H.address).count_eq]
    rcases set_cases there after with ⟨rfl, same⟩ | ⟨other, old⟩
    · cases same
      have count := exact.count _ cell there
      rw [(whole.map H.address).count_eq, List.map_cons, List.count_cons_self] at count
      dsimp only
      omega
    · have count := exact.count j cell' old
      rwa [(whole.map H.address).count_eq, List.map_cons, List.count_cons_of_ne (Ne.symm other)] at count
  · refine deref_set_count there (exact.live r' (whole.mem_iff.mpr ?_))
    exact List.mem_cons_of_mem _ (perm.mem_iff.mp member)
  · dsimp only
    omega

variable {dropped : List ρ}

/-- Releasing the last reference to a cell: what it held is released next. -/
theorem Exact.free (exact : H.Exact h (r :: extra) []) (found : H.deref h r = some cell)
    (last : cell.count = 1) (dropping : dropped.Perm (H.held cell.body)) :
    H.Exact (h.set (H.address r) none) (dropped ++ extra) [] := by
  obtain ⟨there, fits⟩ := deref_iff.mp found
  have perm : (r :: (H.holders (h.set (H.address r) none) ++ (dropped ++ extra))).Perm (H.holders h ++ r :: extra) := by
    have set := holders_set (H := H) none there
    simp only [heldBy, List.append_nil] at set
    calc r :: (H.holders (h.set (H.address r) none) ++ (dropped ++ extra))
        = r :: ((H.holders (h.set (H.address r) none) ++ dropped) ++ extra) := by rw [List.append_assoc]
      List.Perm _ (r :: ((H.holders (h.set (H.address r) none) ++ H.held cell.body) ++ extra)) :=
        ((dropping.append_left _).append_right extra).cons r
      List.Perm _ (r :: (H.holders h ++ extra)) := (set.append_right extra).cons r
      List.Perm _ (H.holders h ++ r :: extra) := List.perm_middle.symm
  -- no other reference is left to the address
  have only (r') (member : r' ∈ H.holders (h.set (H.address r) none) ++ (dropped ++ extra)) : H.address r' ≠ H.address r := by
    intro same
    have count := exact.count _ cell there
    rw [← (perm.map H.address).count_eq, List.map_cons, List.count_cons_self, last] at count
    have some : 0 < ((H.holders (h.set (H.address r) none) ++ (dropped ++ extra)).map H.address).count (H.address r) := by
      have listed := List.mem_map_of_mem (f := H.address) member
      rw [same] at listed
      exact List.count_pos_iff.mpr listed
    simp only [List.map_nil, List.count_nil] at count
    omega
  have other {j : Nat} {cell' : Cell β} (after : (h.set (H.address r) none)[j]? = some (some cell')) :
      j ≠ H.address r ∧ h[j]? = some (some cell') := by
    rcases set_cases there after with ⟨_, same⟩ | old
    · cases same
    · exact old
  refine ⟨fun j cell' after => ?_, fun r' member => ?_, fun j cell' after => ?_, fun j cell' after => ?_⟩
  · have count := exact.count j cell' (other after).2
    rwa [← (perm.map H.address).count_eq, List.map_cons, List.count_cons_of_ne (Ne.symm (other after).1)] at count
  · obtain ⟨cell', found'⟩ := exact.live r' (perm.mem_iff.mp (List.mem_cons_of_mem _ member))
    obtain ⟨at_, fits'⟩ := deref_iff.mp found'
    refine ⟨cell', deref_iff.mpr ⟨?_, fits'⟩⟩
    rw [List.getElem?_set_ne (Ne.symm (only r' member))]
    exact at_
  · exact exact.positive j cell' (other after).2
  · exact exact.sound j cell' (other after).2

variable {pending : List ρ}

/-- Releasing what is on the stack ends, touches nothing that is freed, and keeps the counts exact. -/
theorem Exact.releaseAll {n : Nat} (exact : H.Exact h (pending ++ extra) [])
    (enough : pending.length + (H.holders h).length ≤ n) :
    ∃ h', H.releaseAll n pending h = some h' ∧ H.Exact h' extra [] ∧ Less h h' := by
  induction n generalizing h pending with
  | zero =>
    cases pending with
    | nil => exact ⟨h, rfl, exact, .refl h⟩
    | cons r rest => simp at enough
  | succ n ih =>
    cases pending with
    | nil => exact ⟨h, rfl, exact, .refl h⟩
    | cons r rest =>
      obtain ⟨cell, found⟩ := exact.live r (by simp)
      obtain ⟨there, fits⟩ := deref_iff.mp found
      unfold Holding.releaseAll
      rw [found, Option.bind_some]
      rw [List.length_cons] at enough
      by_cases last : cell.count = 1
      · obtain ⟨dropped, dropping, held⟩ := exact.sound _ cell there
        have freed : H.Exact (h.set (H.address r) none) ((dropped ++ rest) ++ extra) [] :=
          List.append_assoc dropped rest extra ▸ exact.free found last held
        have size := (holders_set (H := H) none there).length_eq
        simp only [heldBy, List.length_append, List.length_nil] at size
        obtain ⟨h', released, exact', less⟩ := ih freed (by
          rw [List.length_append, held.length_eq]
          omega)
        refine ⟨h', ?_, exact', Less.trans (fun j cell' after => ?_) less⟩
        · rw [if_pos last, dropping]
          exact released
        · rcases set_cases there after with ⟨_, same⟩ | ⟨_, old⟩
          · cases same
          · exact ⟨cell', old, rfl⟩
      · have size := (holders_count (H := H) (n := cell.count - 1) there).length_eq
        obtain ⟨h', released, exact', less⟩ := ih (exact.drop found last) (by omega)
        refine ⟨h', ?_, exact', Less.trans (fun j cell' after => ?_) less⟩
        · rw [if_neg last]
          exact released
        · rcases set_cases there after with ⟨rfl, same⟩ | ⟨_, old⟩
          · cases same
            exact ⟨cell, there, rfl⟩
          · exact ⟨cell', old, rfl⟩

theorem Exact.release {rs : List ρ} (exact : H.Exact h (rs ++ extra) []) :
    ∃ h', H.release rs h = some h' ∧ H.Exact h' extra [] ∧ Less h h' := exact.releaseAll (Nat.le_refl _)

theorem perm_append_swap (xs ys zs : List ρ) : (xs ++ ys ++ zs).Perm (xs ++ zs ++ ys) := by
  rw [List.append_assoc, List.append_assoc]
  exact List.perm_append_comm.append_left xs

/-- Another body in the place of a cell's, where the references that `came` are not yet counted. -/
theorem Exact.rebody {came : List ρ} {new : β} (exact : H.Exact h extra []) (there : h[i]? = some (some cell))
    (fits : ∀ r, H.fits r new = H.fits r cell.body) (moved : (H.held new ++ extra').Perm (H.held cell.body ++ extra ++ came))
    (live : ∀ r ∈ came, ∃ cell, H.deref h r = some cell)
    (sound : ∃ dropped, H.drops new = some dropped ∧ dropped.Perm (H.held new)) :
    H.Exact (h.set i (some { cell with body := new })) extra' came := by
  have set := holders_set (H := H) (some { cell with body := new }) there
  simp only [heldBy] at set
  -- everything referred to: what there was, and what came
  have perm : (H.holders (h.set i (some { cell with body := new })) ++ extra').Perm (H.holders h ++ extra ++ came) := by
    refine (List.perm_append_right_iff (H.held cell.body)).mp ?_
    calc H.holders (h.set i (some { cell with body := new })) ++ extra' ++ H.held cell.body
      List.Perm _ (H.holders (h.set i (some { cell with body := new })) ++ H.held cell.body ++ extra') :=
        perm_append_swap ..
      List.Perm _ (H.holders h ++ H.held new ++ extra') := set.append_right _
      _ = H.holders h ++ (H.held new ++ extra') := List.append_assoc ..
      List.Perm _ (H.holders h ++ (H.held cell.body ++ extra ++ came)) := moved.append_left _
      _ = H.holders h ++ H.held cell.body ++ (extra ++ came) := by simp only [List.append_assoc]
      List.Perm _ (H.holders h ++ (extra ++ came) ++ H.held cell.body) := perm_append_swap ..
      _ = H.holders h ++ extra ++ came ++ H.held cell.body := by rw [← List.append_assoc (H.holders h)]
  have reached {r : ρ} (found : ∃ cell, H.deref h r = some cell) :
      ∃ cell', H.deref (h.set i (some { cell with body := new })) r = some cell' := by
    obtain ⟨cell', found⟩ := found
    obtain ⟨at_, fits'⟩ := deref_iff.mp found
    by_cases same : H.address r = i
    · rw [same, there] at at_
      cases at_
      refine ⟨{ cell with body := new }, deref_iff.mpr ⟨?_, (fits r).trans fits'⟩⟩
      rw [same, List.getElem?_set_self (List.getElem?_eq_some_iff.mp there).1]
    · refine ⟨cell', deref_iff.mpr ⟨?_, fits'⟩⟩
      rw [List.getElem?_set_ne (Ne.symm same)]
      exact at_
  refine ⟨fun j cell' after => ?_, fun r member => ?_, forall_set there (exact.positive _ cell there) exact.positive,
    forall_set there sound exact.sound⟩
  · rw [(perm.map H.address).count_eq, List.map_append, List.count_append]
    rcases set_cases there after with ⟨rfl, same⟩ | ⟨_, old⟩
    · cases same
      have count := exact.count _ cell there
      simp only [List.map_nil, List.count_nil] at count
      dsimp only
      omega
    · have count := exact.count j cell' old
      simp only [List.map_nil, List.count_nil] at count
      omega
  · rcases List.mem_append.mp (perm.mem_iff.mp member) with old | new
    · exact reached (exact.live r old)
    · exact reached (live r new)

variable {taken : List ρ}

/-- References about to be taken to cells that are referred to already. -/
theorem Exact.owing (exact : H.Exact h extra []) (listed : ∀ r ∈ taken, r ∈ H.holders h ++ extra) :
    H.Exact h (taken ++ extra) taken := by
  have whole : (H.holders h ++ (taken ++ extra)).Perm (H.holders h ++ extra ++ taken) := by
    rw [← List.append_assoc]
    exact perm_append_swap ..
  refine ⟨fun j cell there => ?_, fun r member => ?_, exact.positive, exact.sound⟩
  · have count := exact.count j cell there
    simp only [List.map_nil, List.count_nil] at count
    rw [(whole.map H.address).count_eq, List.map_append, List.count_append]
    omega
  · rcases List.mem_append.mp (whole.mem_iff.mp member) with old | new
    · exact exact.live r old
    · exact exact.live r (listed r new)

/-- A new cell, with one reference to it. -/
theorem Exact.alloc (exact : H.Exact h extra []) (new : H.address r = h.length) (fits : H.fits r body = true)
    (empty : H.held body = []) (drops : H.drops body = some []) :
    H.Exact (h ++ [some ⟨1, body⟩]) (r :: extra) [] := by
  have same : H.holders (h ++ [some ⟨1, body⟩]) = H.holders h := by
    simp [holders, heldBy, empty]
  have whole : (H.holders h ++ r :: extra).Perm (r :: (H.holders h ++ extra)) := List.perm_middle
  -- nothing refers to the new address yet
  have inside {r' : ρ} (member : r' ∈ H.holders h ++ extra) : H.address r' < h.length := by
    obtain ⟨cell, found⟩ := exact.live r' member
    exact (List.getElem?_eq_some_iff.mp (deref_iff.mp found).1).1
  have split {j : Nat} {cell' : Cell β} (after : (h ++ [some ⟨1, body⟩])[j]? = some (some cell')) :
      (j = h.length ∧ cell' = ⟨1, body⟩) ∨ (j < h.length ∧ h[j]? = some (some cell')) := by
    by_cases old : j < h.length
    · rw [List.getElem?_append_left old] at after
      exact .inr ⟨old, after⟩
    · rw [List.getElem?_append_right (Nat.le_of_not_lt old)] at after
      have last : j - h.length = 0 := by
        have := (List.getElem?_eq_some_iff.mp after).1
        rw [List.length_singleton] at this
        omega
      rw [last] at after
      refine .inl ⟨by omega, ?_⟩
      cases after
      rfl
  refine ⟨fun j cell' after => ?_, fun r' member => ?_, fun j cell' after => ?_, fun j cell' after => ?_⟩
  · rw [same, (whole.map H.address).count_eq, List.map_cons]
    rcases split after with ⟨rfl, rfl⟩ | ⟨old, there⟩
    · have none : ((H.holders h ++ extra).map H.address).count h.length = 0 := by
        refine List.count_eq_zero.mpr fun listed => ?_
        obtain ⟨r', member, at_⟩ := List.mem_map.mp listed
        exact absurd at_ (Nat.ne_of_lt (inside member))
      rw [new, List.count_cons_self, none]
      rfl
    · have count := exact.count j cell' there
      rwa [List.count_cons_of_ne (by omega)]
  · rw [same] at member
    rcases List.mem_cons.mp (whole.mem_iff.mp member) with rfl | old
    · refine ⟨⟨1, body⟩, deref_iff.mpr ⟨?_, fits⟩⟩
      rw [new, List.getElem?_append_right (Nat.le_refl _), Nat.sub_self]
      rfl
    · obtain ⟨cell, found⟩ := exact.live r' old
      obtain ⟨there, fits⟩ := deref_iff.mp found
      refine ⟨cell, deref_iff.mpr ⟨?_, fits⟩⟩
      rw [List.getElem?_append_left (inside old)]
      exact there
  · rcases split after with ⟨_, rfl⟩ | ⟨_, there⟩
    · exact Nat.one_pos
    · exact exact.positive j cell' there
  · rcases split after with ⟨_, rfl⟩ | ⟨_, there⟩
    · refine ⟨[], drops, ?_⟩
      rw [empty]
    · exact exact.sound j cell' there

/-- Takes every reference of a list. -/
def addrefAll (rs : List ρ) (h : Cells β) : Option (Cells β) := rs.foldlM H.addref h

/-- Paying off all that is owed. -/
theorem Exact.addrefAll (exact : H.Exact h extra owed) (listed : ∀ r ∈ owed, r ∈ H.holders h ++ extra) :
    ∃ h', H.addrefAll owed h = some h' ∧ H.Exact h' extra [] ∧ SameBodies h h' := by
  induction owed generalizing h with
  | nil => exact ⟨h, rfl, exact, rfl⟩
  | cons r rest ih =>
    obtain ⟨h1, taken, exact, same⟩ := exact.addref (listed r List.mem_cons_self)
    obtain ⟨h2, all, exact, same'⟩ := ih exact (fun r member => by
      rw [same.holders]
      exact listed r (List.mem_cons_of_mem _ member))
    refine ⟨h2, ?_, exact, same.trans same'⟩
    rw [Holding.addrefAll, List.foldlM_cons, taken]
    exact all

theorem releaseAll_less {n : Nat} (released : H.releaseAll n pending h = some h') : Less h h' := by
  induction n generalizing h pending with
  | zero =>
    cases pending with
    | nil =>
      cases released
      exact .refl _
    | cons r rest => cases released
  | succ n ih =>
    cases pending with
    | nil =>
      cases released
      exact .refl _
    | cons r rest =>
      obtain ⟨cell, found, next⟩ := Option.bind_eq_some_iff.mp released
      have there := (deref_iff.mp found).1
      split at next
      · obtain ⟨dropped, _, next⟩ := Option.bind_eq_some_iff.mp next
        refine Less.trans (fun j cell' after => ?_) (ih next)
        rcases set_cases there after with ⟨_, same⟩ | ⟨_, old⟩
        · cases same
        · exact ⟨cell', old, rfl⟩
      · refine Less.trans (fun j cell' after => ?_) (ih next)
        rcases set_cases there after with ⟨rfl, same⟩ | ⟨_, old⟩
        · cases same
          exact ⟨cell, there, rfl⟩
        · exact ⟨cell', old, rfl⟩

/-- The body of a cell that is not freed can be changed before the release or after it. -/
theorem releaseAll_set {n c c' : Nat} {b b' : β} (there : h[i]? = some (some ⟨c, b⟩))
    (fits : ∀ r, H.fits r b' = H.fits r b) (released : H.releaseAll n pending h = some h')
    (survives : h'[i]? = some (some ⟨c', b⟩)) :
    H.releaseAll n pending (h.set i (some ⟨c, b'⟩)) = some (h'.set i (some ⟨c', b'⟩)) := by
  induction n generalizing h pending c with
  | zero =>
    cases pending with
    | nil =>
      cases released
      rw [there] at survives
      cases survives
      rfl
    | cons r rest => cases released
  | succ n ih =>
    cases pending with
    | nil =>
      cases released
      rw [there] at survives
      cases survives
      rfl
    | cons r rest =>
      obtain ⟨cell, found, next⟩ := Option.bind_eq_some_iff.mp released
      obtain ⟨at_, fit⟩ := deref_iff.mp found
      have inside := (List.getElem?_eq_some_iff.mp there).1
      unfold Holding.releaseAll
      by_cases same : H.address r = i
      · subst same
        rw [there] at at_
        cases at_
        have found' : H.deref (h.set (H.address r) (some ⟨c, b'⟩)) r = some ⟨c, b'⟩ :=
          deref_iff.mpr ⟨List.getElem?_set_self inside, (fits r).trans fit⟩
        rw [found', Option.bind_some]
        by_cases last : c = 1
        · -- freed here, it would not be there at the end
          rw [if_pos last] at next
          obtain ⟨dropped, _, next⟩ := Option.bind_eq_some_iff.mp next
          obtain ⟨_, gone, _⟩ := releaseAll_less next _ _ survives
          rw [List.getElem?_set_self inside] at gone
          cases gone
        · rw [if_neg last] at next ⊢
          rw [List.set_set]
          have after := ih (List.getElem?_set_self inside) next
          rwa [List.set_set] at after
      · have found' : H.deref (h.set i (some ⟨c, b'⟩)) r = some cell := by
          refine deref_iff.mpr ⟨?_, fit⟩
          rw [List.getElem?_set_ne (Ne.symm same)]
          exact at_
        have kept (x : Option (Cell β)) : (h.set (H.address r) x)[i]? = some (some ⟨c, b⟩) := by
          rw [List.getElem?_set_ne same]
          exact there
        rw [found', Option.bind_some]
        by_cases last : cell.count = 1
        · rw [if_pos last] at next ⊢
          obtain ⟨dropped, dropping, next⟩ := Option.bind_eq_some_iff.mp next
          rw [dropping, Option.bind_some, List.set_comm _ _ (Ne.symm same)]
          exact ih (kept _) next
        · rw [if_neg last] at next ⊢
          rw [List.set_comm _ _ (Ne.symm same)]
          exact ih (kept _) next

/-- Writes the body of a cell anew. -/
def rewrite (i : Nat) (f : β → β) (h : Cells β) : Option (Cells β) :=
  match h[i]? with
  | some (some cell) => some (h.set i (some { cell with body := f cell.body }))
  | _ => none

variable {f : β → β}

theorem rewrite_eq (there : h[i]? = some (some cell)) :
    rewrite i f h = some (h.set i (some { cell with body := f cell.body })) := by
  rw [rewrite, there]

/-- Every body of `h'` is a body of `h` or `new`. -/
def BodiesFrom (h : Cells β) (new : β) (h' : Cells β) : Prop :=
  ∀ (j : Nat) (cell' : Cell β), h'[j]? = some (some cell') →
    cell'.body = new ∨ ∃ cell : Cell β, h[j]? = some (some cell) ∧ cell'.body = cell.body

theorem set_eq_self {x : Option (Cell β)} (there : h[i]? = some x) : h.set i x = h := by
  obtain ⟨inside, rfl⟩ := List.getElem?_eq_some_iff.mp there
  exact List.set_getElem_self inside

section

variable (exact : H.Exact h extra [])
include exact

/-- A cell that is referred to from outside gives up references, is written anew and takes others:
`mid` is what it holds in between. -/
theorem Exact.exchange {dropped taken : List ρ} {mid : β}
    (there : h[i]? = some (some cell)) (owned : r ∈ extra) (here : H.address r = i)
    (fitsMid : ∀ r, H.fits r mid = H.fits r cell.body) (fits : ∀ r, H.fits r (f cell.body) = H.fits r cell.body)
    (out : (H.held mid ++ dropped).Perm (H.held cell.body)) (back : (H.held (f cell.body)).Perm (H.held mid ++ taken))
    (owns : ∀ r ∈ taken, r ∈ extra) (soundMid : ∃ ds, H.drops mid = some ds ∧ ds.Perm (H.held mid))
    (sound : ∃ ds, H.drops (f cell.body) = some ds ∧ ds.Perm (H.held (f cell.body))) :
    ∃ h', ((H.release dropped h).bind fun h => (rewrite i f h).bind (H.addrefAll taken)) = some h' ∧
      H.Exact h' extra [] ∧ BodiesFrom h (f cell.body) h' := by
  have inside := (List.getElem?_eq_some_iff.mp there).1
  have exactMid : H.Exact (h.set i (some { cell with body := mid })) (dropped ++ extra) [] := by
    refine exact.rebody there fitsMid ?_ (fun r none => by cases none) soundMid
    rw [List.append_nil, ← List.append_assoc]
    exact out.append_right extra
  have fewer : dropped.length + (H.holders (h.set i (some { cell with body := mid }))).length ≤
      dropped.length + (H.holders h).length := by
    have size := (holders_set (H := H) (some { cell with body := mid }) there).length_eq
    have less := out.length_eq
    simp only [heldBy, List.length_append] at size less
    omega
  obtain ⟨h1, released, exact1, less⟩ := exactMid.releaseAll fewer
  -- the cell itself is not freed, as it is referred to from outside
  obtain ⟨cell1, found⟩ := exact1.live r (List.mem_append_right _ owned)
  have there1 := (deref_iff.mp found).1
  rw [here] at there1
  obtain ⟨_, at_, body⟩ := less i cell1 there1
  rw [List.getElem?_set_self inside] at at_
  cases at_
  have whole : H.release dropped h = some (h1.set i (some { cell1 with body := cell.body })) := by
    obtain ⟨count, body1⟩ := cell1
    cases body
    have after := releaseAll_set (List.getElem?_set_self inside) (fun r => (fitsMid r).symm) released there1
    rwa [List.set_set, set_eq_self there] at after
  have inside1 := (List.getElem?_eq_some_iff.mp there1).1
  have written : rewrite i f (h1.set i (some { cell1 with body := cell.body })) =
      some (h1.set i (some { cell1 with body := f cell.body })) := by
    rw [rewrite_eq (List.getElem?_set_self inside1), List.set_set]
  have fits1 (r) : H.fits r (f cell.body) = H.fits r cell1.body := by
    rw [fits, body]
    exact (fitsMid r).symm
  have moved : (H.held (f cell.body) ++ extra).Perm (H.held cell1.body ++ extra ++ taken) := by
    rw [body]
    exact (back.append_right extra).trans (perm_append_swap ..)
  have exact2 := exact1.rebody there1 fits1 moved
    (fun r member => exact1.live r (List.mem_append_right _ (owns r member))) sound
  obtain ⟨h', taken', exact', same⟩ := exact2.addrefAll (fun r member => List.mem_append_right _ (owns r member))
  refine ⟨h', ?_, exact', fun j cell' after => ?_⟩
  · rw [whole, Option.bind_some, written, Option.bind_some]
    exact taken'
  · obtain ⟨cell2, at2, same2⟩ := same.at after
    rcases set_cases there1 at2 with ⟨_, same3⟩ | ⟨other, at1⟩
    · cases same3
      exact .inl same2
    · obtain ⟨cell0, at0, same0⟩ := less j cell2 at1
      rw [List.getElem?_set_ne (Ne.symm other)] at at0
      exact .inr ⟨cell0, at0, same2.trans same0⟩

/-- A cell that is referred to from outside gives up references and is then written anew without them. -/
theorem Exact.forget (there : h[i]? = some (some cell))
    (owned : r ∈ extra) (here : H.address r = i) (fits : ∀ r, H.fits r (f cell.body) = H.fits r cell.body)
    (out : (H.held (f cell.body) ++ dropped).Perm (H.held cell.body))
    (sound : ∃ ds, H.drops (f cell.body) = some ds ∧ ds.Perm (H.held (f cell.body))) :
    ∃ h', ((H.release dropped h).bind (rewrite i f)) = some h' ∧ H.Exact h' extra [] ∧ BodiesFrom h (f cell.body) h' := by
  have back : (H.held (f cell.body)).Perm (H.held (f cell.body) ++ []) := by rw [List.append_nil]
  obtain ⟨h', done, exact', bodies⟩ :=
    exact.exchange there owned here fits fits out back (fun r none => by cases none) sound sound
  refine ⟨h', ?_, exact', bodies⟩
  rw [← done]
  congr 1
  funext h
  cases rewrite i f h <;> rfl

/-- A cell is written anew and then gives up what it does not hold any more. -/
theorem Exact.discard (there : h[i]? = some (some cell))
    (fits : ∀ r, H.fits r (f cell.body) = H.fits r cell.body) (out : (H.held (f cell.body) ++ dropped).Perm (H.held cell.body))
    (sound : ∃ ds, H.drops (f cell.body) = some ds ∧ ds.Perm (H.held (f cell.body))) :
    ∃ h', ((rewrite i f h).bind (H.release dropped)) = some h' ∧ H.Exact h' extra [] ∧ BodiesFrom h (f cell.body) h' := by
  have exact1 : H.Exact (h.set i (some { cell with body := f cell.body })) (dropped ++ extra) [] := by
    refine exact.rebody there fits ?_ (fun r none => by cases none) sound
    rw [List.append_nil, ← List.append_assoc]
    exact out.append_right extra
  obtain ⟨h', released, exact', less⟩ := exact1.release
  refine ⟨h', ?_, exact', fun j cell' after => ?_⟩
  · rw [rewrite_eq there]
    exact released
  · obtain ⟨cell1, at1, same1⟩ := less j cell' after
    rcases set_cases there at1 with ⟨_, same⟩ | ⟨_, at0⟩
    · cases same
      exact .inl same1
    · exact .inr ⟨cell1, at0, same1⟩

/-- References are taken for an outside owner. -/
theorem Exact.take (listed : ∀ r ∈ taken, r ∈ H.holders h ++ extra) :
    ∃ h', H.addrefAll taken h = some h' ∧ H.Exact h' (taken ++ extra) [] ∧ SameBodies h h' := by
  refine (exact.owing listed).addrefAll fun r member => ?_
  exact List.mem_append_right _ (List.mem_append_left _ member)

/-- References are taken for a cell, which is then written anew to hold them. -/
theorem Exact.receive (there : h[i]? = some (some cell))
    (fits : ∀ r, H.fits r (f cell.body) = H.fits r cell.body) (back : (H.held (f cell.body)).Perm (H.held cell.body ++ taken))
    (listed : ∀ r ∈ taken, r ∈ H.holders h ++ extra)
    (sound : ∃ ds, H.drops (f cell.body) = some ds ∧ ds.Perm (H.held (f cell.body))) :
    ∃ h', ((H.addrefAll taken h).bind (rewrite i f)) = some h' ∧ H.Exact h' extra [] ∧ BodiesFrom h (f cell.body) h' := by
  obtain ⟨h1, took, exact1, same⟩ := exact.take listed
  obtain ⟨cell1, there1, body⟩ := same.symm.at there
  rw [body] at fits back sound
  have moved : (H.held (f cell1.body) ++ extra).Perm (H.held cell1.body ++ (taken ++ extra) ++ []) := by
    rw [List.append_nil, ← List.append_assoc]
    exact back.append_right extra
  refine ⟨_, ?_, exact1.rebody there1 fits moved (fun r none => by cases none) sound, fun j cell' after => ?_⟩
  · rw [took, Option.bind_some, rewrite_eq there1]
  · rcases set_cases there1 after with ⟨_, new⟩ | ⟨_, at1⟩
    · cases new
      rw [body]
      exact .inl rfl
    · exact .inr (same.at at1)

end

end Holding

end Braidcast.Lib
