import Braidcast.Data.Heap

/-!
# What each call takes and gives up

The counts stay exact through every call, where each value is of the type its item says.
-/
namespace Braidcast.Data

open Lib

/-- Under the type, a value is taken for the pointers that are in it. -/
def Content.Agrees (type : DataType) (c : Content) : Prop := c.read type = some c.pointers

theorem Setting.agrees (setting : Setting) : setting.content.Agrees setting.type := by
  cases setting <;> rfl

namespace Entry

variable {item : Entry} {region : Region} {value : Content} {type : DataType}

def Agrees (item : Entry) : Prop := ∀ region, ∀ c ∈ item.value region, c.Agrees item.type

theorem Agrees.refs (agrees : item.Agrees) (region : Region) : item.refs region = some (item.pointers region) := by
  unfold Entry.refs pointers
  cases here : item.value region with
  | none => rfl
  | some c => exact agrees region c here

theorem Agrees.destroy (agrees : item.Agrees) : item.destroy = some item.held := by
  unfold Entry.destroy held
  rw [agrees.refs, agrees.refs, agrees.refs]
  rfl

theorem Agrees.unset (agrees : item.Agrees) (region : Region) : (item.unset region).Agrees := by
  intro r c member
  by_cases same : r = region
  · subst same
    simp only [Entry.unset, Function.update_self] at member
    cases member
  · simp only [Entry.unset, Function.update_of_ne same] at member
    exact agrees r c member

/-- The other values have to be of the new type. -/
theorem store_agrees (item : Entry) (own : value.Agrees type) (others : ∀ r, r ≠ region → ∀ c ∈ item.value r, c.Agrees type) :
    (item.store region value type).Agrees := by
  intro r c member
  by_cases same : r = region
  · subst same
    simp only [store, Function.update_self] at member
    cases member
    exact own
  · simp only [store, Function.update_of_ne same] at member
    exact others r same c member

variable {name : List UInt8}

theorem create_agrees (own : value.Agrees type) : (create name value type region).Agrees :=
  store_agrees (⟨name, type, fun _ => none⟩ : Entry) own fun _ _ _ none => by cases none

theorem unset_held (item : Entry) (region : Region) : ((item.unset region).held ++ item.pointers region).Perm item.held := by
  rw [List.perm_iff_count]
  intro ref
  cases region <;>
    simp only [held, pointers, unset, List.count_append, Function.update_self, ne_eq, reduceCtorEq, not_false_eq_true,
      Function.update_of_ne, Option.elim_none, List.count_nil] <;> omega

theorem store_held (item : Entry) (region : Region) (value : Content) (type : DataType) : (item.store region value type).held.Perm ((item.unset region).held ++ value.pointers) := by
  rw [List.perm_iff_count]
  intro ref
  cases region <;>
    simp only [held, pointers, store, unset, List.count_append, Function.update_self, ne_eq, reduceCtorEq, not_false_eq_true,
      Function.update_of_ne, Option.elim_none, Option.elim_some, List.count_nil] <;> omega

theorem create_held : (create name value type region).held.Perm value.pointers := by
  have same : ((⟨name, type, fun _ => none⟩ : Entry).unset region).held = [] := by
    cases region <;> rfl
  have stored := store_held ⟨name, type, fun _ => none⟩ region value type
  rwa [same] at stored

@[simp] theorem store_pointers : (item.store region value type).pointers region = value.pointers := by
  simp [pointers, store]

@[simp] theorem create_pointers : (create name value type region).pointers region = value.pointers := by
  simp [pointers, create]

/-- Where there is a user value, a reference is taken to what is stored, whichever value it is. -/
theorem store_addref (agrees : (item.store region value type).Agrees)
    (filled : region = .default → value.pointers ≠ [] → item.value .user ≠ none) :
    (item.store region value type).dataAddref region = some value.pointers := by
  have follows := agrees.refs region
  rw [store_pointers] at follows
  cases region with
  | user | autoselect => exact follows
  | default =>
    simp only [dataAddref]
    split
    next none =>
      by_cases null : value.pointers = []
      · rw [null]
      · exact absurd (Option.isNone_iff_eq_none.mp none) (filled rfl null)
    next => exact follows

theorem mem_held {ref : Ref} (region : Region) (member : ref ∈ item.pointers region) : ref ∈ item.held := by
  unfold held
  cases region <;> simp [member]

/-- The getters find pointers that are in the item. -/
theorem Agrees.getPtr (agrees : item.Agrees) (region : Region) (kind : DataType) :
    ∃ refs, item.getPtr region kind = some refs ∧ ∀ ref ∈ refs, ref ∈ item.held := by
  unfold Entry.getPtr
  split
  next same =>
    subst same
    -- whichever value is read
    have reads (r : Region) (value : Option Content) (here : ∀ c ∈ value, item.value r = some c) :
        ∃ refs, value.elim (some []) (Content.read item.type) = some refs ∧ ∀ ref ∈ refs, ref ∈ item.held := by
      cases value with
      | none => exact ⟨[], rfl, fun ref none => by cases none⟩
      | some c =>
        refine ⟨c.pointers, agrees r c (here c rfl), fun ref member => mem_held r ?_⟩
        rw [pointers, here c rfl]
        exact member
    cases region with
    | user =>
      dsimp only
      cases user : item.value .user with
      | some c => exact reads .user (some c) fun _ same => by cases same; exact user
      | none =>
        cases byDefault : item.value .default with
        | some c => exact reads .default (some c) fun _ same => by cases same; exact byDefault
        | none => exact reads .autoselect _ fun _ same => same
    | default => exact reads .default _ fun _ same => same
    | autoselect => exact reads .autoselect _ fun _ same => same
  next => exact ⟨[], rfl, fun ref none => by cases none⟩

end Entry

def Body.Agrees (body : Body) : Prop := ∀ item ∈ body.items, item.Agrees

theorem destroyItems_eq {items : List Entry} (agrees : ∀ item ∈ items, item.Agrees) :
    destroyItems items = some (items.flatMap Entry.held) := by
  induction items with
  | nil => rfl
  | cons item items ih =>
    rw [destroyItems, (agrees item List.mem_cons_self).destroy, ih fun item later => agrees item (List.mem_cons_of_mem _ later)]
    rfl

/-- Where every value is of the type its item says, what is released is what is held. -/
theorem Body.Agrees.sound {body : Body} (agrees : body.Agrees) :
    ∃ dropped, holding.drops body = some dropped ∧ dropped.Perm (holding.held body) := by
  cases body with
  | object items => exact ⟨_, destroyItems_eq agrees, .refl _⟩
  | array objects => exact ⟨_, rfl, .refl _⟩

namespace Heap

variable {cells cells' : Cells Body} {outside : List Ref} {data : Nat} {name : List UInt8} {region : Region}
  {items : List Entry} {item : Entry} {f : Entry → Entry}

/-- The counts are exact, and every value is of the type its item says. -/
structure Fine (cells : Cells Body) (outside : List Ref) : Prop where
  exact : holding.Exact cells outside []
  agrees : ∀ (i : Nat) (cell : Cell Body), cells[i]? = some (some cell) → cell.body.Agrees

section

variable (fine : Fine cells outside)
include fine

theorem Fine.change {new : Body} {outside' : List Ref} (exact : holding.Exact cells' outside' [])
    (bodies : Holding.BodiesFrom cells new cells') (agrees : new.Agrees) : Fine cells' outside' where
  exact := exact
  agrees i cell there := by
    rcases bodies i cell there with same | ⟨old, at_, same⟩
    · exact same ▸ agrees
    · exact same ▸ fine.agrees i old at_

theorem Fine.same {outside' : List Ref} (exact : holding.Exact cells' outside' [])
    (bodies : Holding.SameBodies cells cells') : Fine cells' outside' where
  exact := exact
  agrees i cell there := by
    obtain ⟨old, at_, same⟩ := bodies.at there
    exact same ▸ fine.agrees i old at_

/-- What a caller has a reference to is there. -/
theorem Fine.object (owned : .object data ∈ outside) :
    ∃ count items, holding.deref cells (.object data) = some ⟨count, .object items⟩ ∧
      cells[data]? = some (some ⟨count, .object items⟩) ∧ ∀ item ∈ items, item.Agrees := by
  obtain ⟨⟨count, body⟩, found⟩ := fine.exact.live _ (List.mem_append_right _ owned)
  obtain ⟨there, fits⟩ := Holding.deref_iff.mp found
  cases body with
  | object items => exact ⟨count, items, found, there, fine.agrees _ _ there⟩
  | array objects => cases fits

theorem Fine.array {array : Nat} (owned : .array array ∈ outside) :
    ∃ count objects, holding.deref cells (.array array) = some ⟨count, .array objects⟩ ∧
      cells[array]? = some (some ⟨count, .array objects⟩) := by
  obtain ⟨⟨count, body⟩, found⟩ := fine.exact.live _ (List.mem_append_right _ owned)
  obtain ⟨there, fits⟩ := Holding.deref_iff.mp found
  cases body with
  | object items => cases fits
  | array objects => exact ⟨count, objects, found, there⟩

end

theorem fits_object (xs ys : List Entry) (ref : Ref) : holding.fits ref (.object xs) = holding.fits ref (.object ys) := by
  cases ref <;> rfl

theorem fits_array (xs ys : List Nat) (ref : Ref) : holding.fits ref (.array xs) = holding.fits ref (.array ys) := by
  cases ref <;> rfl

section

variable (found : getItem items name = some item)
include found

theorem onItem_held :
    (holding.held (onItem name f (.object items)) ++ item.held).Perm (items.flatMap Entry.held ++ (f item).held) :=
  perm_flatMap_modifyFirst Entry.held found

theorem onItem_agrees (agrees : ∀ item ∈ items, item.Agrees)
    (new : (f item).Agrees) : (onItem name f (.object items)).Agrees := by
  intro item' member
  rcases mem_modifyFirst_of_find? found member with old | rfl
  · exact agrees item' old
  · exact new

theorem unset_onItem_held :
    (holding.held (onItem name (fun item => item.unset region) (.object items)) ++ item.pointers region).Perm
      (holding.held (.object items)) := by
  rw [List.perm_iff_count]
  intro ref
  have changed := (onItem_held (f := fun item => item.unset region) found).count_eq ref
  have unset := (item.unset_held region).count_eq ref
  have same : holding.held (.object items) = items.flatMap Entry.held := rfl
  simp only [List.count_append, same] at changed unset ⊢
  omega

theorem store_onItem_held {value : Content} {type : DataType} :
    (holding.held (onItem name (fun item => item.store region value type) (.object items))).Perm
      (holding.held (onItem name (fun item => item.unset region) (.object items)) ++ value.pointers) := by
  rw [List.perm_iff_count]
  intro ref
  have changed := (onItem_held (f := fun item => item.store region value type) found).count_eq ref
  have emptied := (onItem_held (f := fun item => item.unset region) found).count_eq ref
  have stored := (item.store_held region value type).count_eq ref
  simp only [List.count_append] at changed emptied stored ⊢
  omega

end

/-- A value is stored in an object: the item is made with it, or gives up the value it had. -/
theorem setItem_fine {setting : Setting} (fine : Fine cells outside) (owned : .object data ∈ outside)
    (owns : ∀ ref ∈ setting.content.pointers, ref ∈ outside)
    (keeps : ∀ object item, holding.deref cells (.object data) = some object → getItem object.body.items name = some item →
      (region = .default → item.type = setting.type → setting.content.pointers ≠ [] → item.value .user ≠ none) ∧
      (region ≠ .default → ∀ r, r ≠ region → ∀ c ∈ item.value r, c.Agrees setting.type)) :
    ∃ cells', setItem cells data name region setting = some cells' ∧ Fine cells' outside := by
  obtain ⟨count, items, found, there, agrees⟩ := fine.object owned
  unfold setItem
  rw [found, Option.bind_some]
  dsimp only [Body.items]
  cases got : getItem items name with
  | none =>
    have new : (Entry.create name setting.content setting.type region).Agrees := Entry.create_agrees setting.agrees
    have all : (addItem (Entry.create name setting.content setting.type region) (.object items)).Agrees := by
      intro item member
      rcases List.mem_append.mp member with old | last
      · exact agrees item old
      · rcases List.mem_singleton.mp last with rfl
        exact new
    have taken : (Entry.create name setting.content setting.type region).refs region = some setting.content.pointers := by
      rw [new.refs, Entry.create_pointers]
    have held : (holding.held (addItem (Entry.create name setting.content setting.type region) (.object items))).Perm
        (holding.held (.object items) ++ setting.content.pointers) := by
      refine List.Perm.trans (.of_eq (List.flatMap_append ..)) ?_
      rw [List.flatMap_singleton]
      exact Entry.create_held.append_left _
    obtain ⟨cells', done, exact, bodies⟩ := fine.exact.receive there (fits_object _ _) held
      (fun ref member => List.mem_append_right _ (owns ref member)) all.sound
    refine ⟨cells', ?_, fine.change exact bodies all⟩
    dsimp only
    rw [taken, Option.bind_some]
    exact done
  | some item =>
    obtain ⟨filled, others⟩ := keeps _ item found got
    have itemAgrees := agrees item (List.mem_of_find?_eq_some got)
    dsimp only
    split
    next => exact ⟨cells, rfl, fine⟩
    next allowed =>
      have stored : (item.store region setting.content setting.type).Agrees := by
        refine item.store_agrees setting.agrees fun r other c member => ?_
        by_cases byDefault : region = .default
        · have same : item.type = setting.type := by
            by_contra differs
            exact allowed ⟨byDefault, differs⟩
          rw [← same]
          exact itemAgrees r c member
        · exact others byDefault r other c member
      have all := onItem_agrees got agrees (f := fun item => item.store region setting.content setting.type) stored
      have mid := onItem_agrees got agrees (f := fun item => item.unset region) (itemAgrees.unset region)
      have taken : (item.store region setting.content setting.type).dataAddref region =
          some setting.content.pointers := by
        refine Entry.store_addref stored fun byDefault some => filled byDefault ?_ some
        by_contra differs
        exact allowed ⟨byDefault, differs⟩
      obtain ⟨cells', done, exact, bodies⟩ := fine.exact.exchange there owned rfl (fits_object _ _) (fits_object _ _)
        (unset_onItem_held got) (store_onItem_held got) owns mid.sound all.sound
      refine ⟨cells', ?_, fine.change exact bodies all⟩
      rw [itemAgrees.refs, Option.bind_some, taken, Option.bind_some]
      exact done

theorem unsetItem_fine (name : List UInt8) (region : Region) (fine : Fine cells outside) (owned : .object data ∈ outside) :
    ∃ cells', unsetItem cells data name region = some cells' ∧ Fine cells' outside := by
  obtain ⟨count, items, found, there, agrees⟩ := fine.object owned
  unfold unsetItem
  rw [found, Option.bind_some]
  dsimp only [Body.items]
  cases got : getItem items name with
  | none => exact ⟨cells, rfl, fine⟩
  | some item =>
    dsimp only
    split
    next => exact ⟨cells, rfl, fine⟩
    next =>
      have itemAgrees := agrees item (List.mem_of_find?_eq_some got)
      have all := onItem_agrees got agrees (f := fun item => item.unset region) (itemAgrees.unset region)
      obtain ⟨cells', done, exact, bodies⟩ := fine.exact.forget there owned rfl (fits_object _ _) (unset_onItem_held got) all.sound
      refine ⟨cells', ?_, fine.change exact bodies all⟩
      rw [itemAgrees.refs, Option.bind_some]
      exact done

theorem clear_fine (fine : Fine cells outside) (owned : .object data ∈ outside) :
    ∃ cells', clear cells data = some cells' ∧ Fine cells' outside := by
  obtain ⟨count, items, found, _⟩ := fine.object owned
  unfold clear
  rw [found, Option.bind_some]
  -- one item after the other
  have each (names : List (List UInt8)) : ∀ cells, Fine cells outside →
      ∃ cells', names.foldlM (fun cells name => unsetItem cells data name .user) cells = some cells' ∧ Fine cells' outside := by
    induction names with
    | nil => exact fun cells fine => ⟨cells, rfl, fine⟩
    | cons name names ih =>
      intro cells fine
      obtain ⟨cells1, first, fine1⟩ := unsetItem_fine name .user fine owned
      obtain ⟨cells2, rest, fine2⟩ := ih cells1 fine1
      refine ⟨cells2, ?_, fine2⟩
      rw [List.foldlM_cons, first]
      exact rest
  exact each _ cells fine

theorem erase_fine (fine : Fine cells outside) (owned : .object data ∈ outside) :
    ∃ cells', erase cells data name = some cells' ∧ Fine cells' outside := by
  obtain ⟨count, items, found, there, agrees⟩ := fine.object owned
  unfold erase
  rw [found, Option.bind_some]
  dsimp only [Body.items]
  cases got : getItem items name with
  | none => exact ⟨cells, rfl, fine⟩
  | some item =>
    have itemAgrees := agrees item (List.mem_of_find?_eq_some got)
    have all : (removeItem name (.object items)).Agrees := fun item' member => agrees item' (List.mem_of_mem_eraseP member)
    have out : (holding.held (removeItem name (.object items)) ++ item.held).Perm (holding.held (.object items)) := by
      have split := (perm_cons_eraseP got).flatMap_right Entry.held
      rw [List.flatMap_cons] at split
      exact List.perm_append_comm.trans split.symm
    obtain ⟨cells', done, exact, bodies⟩ := fine.exact.discard there (fits_object _ _) out all.sound
    refine ⟨cells', ?_, fine.change exact bodies all⟩
    dsimp only
    rw [itemAgrees.destroy, Option.bind_some]
    exact done

theorem getPtr_fine (name : List UInt8) (region : Region) (fine : Fine cells outside) (owned : .object data ∈ outside) (kind : DataType) :
    ∃ refs, getPtr cells data name region kind = some refs ∧ ∀ ref ∈ refs, ref ∈ holding.holders cells := by
  obtain ⟨count, items, found, there, agrees⟩ := fine.object owned
  unfold getPtr
  rw [found, Option.bind_some]
  dsimp only [Body.items]
  cases got : getItem items name with
  | none => exact ⟨[], rfl, fun ref none => by cases none⟩
  | some item =>
    have listed := List.mem_of_find?_eq_some got
    obtain ⟨refs, answer, held⟩ := (agrees item listed).getPtr region kind
    refine ⟨refs, answer, fun ref member => Holding.mem_holders there ?_⟩
    exact List.mem_flatMap.mpr ⟨item, listed, held ref member⟩

theorem array_agrees (objects : List Nat) : (Body.array objects).Agrees := fun _ none => by cases none

theorem arrayInsert_fine {array idx obj : Nat} (fine : Fine cells outside) (owned : .array array ∈ outside)
    (owns : .object obj ∈ outside)
    (bounded : ∀ cell, holding.deref cells (.array array) = some cell → idx ≤ cell.body.objects.length) :
    ∃ cells', arrayInsert cells array idx obj = some cells' ∧ Fine cells' outside := by
  obtain ⟨count, objects, found, there⟩ := fine.array owned
  have back : (holding.held (.array (objects.insertIdx idx obj))).Perm (holding.held (.array objects) ++ [.object obj]) := by
    have inserted := (List.perm_insertIdx obj objects (bounded _ found)).map Ref.object
    exact inserted.trans (List.perm_append_singleton _ _).symm
  obtain ⟨cells', done, exact, bodies⟩ := fine.exact.receive (f := fun body => .array (body.objects.insertIdx idx obj)) there
    (fits_array _ _) back (fun ref member => List.mem_append_right _ (List.mem_singleton.mp member ▸ owns))
    (array_agrees _).sound
  exact ⟨cells', done, fine.change exact bodies (array_agrees _)⟩

theorem arrayPushBackArray_fine {array array2 : Nat} (fine : Fine cells outside) (owned : .array array ∈ outside)
    (owned2 : .array array2 ∈ outside) :
    ∃ cells', arrayPushBackArray cells array array2 = some cells' ∧ Fine cells' outside := by
  obtain ⟨_, objects, _, there⟩ := fine.array owned
  obtain ⟨_, objects2, found2, there2⟩ := fine.array owned2
  have back : (holding.held (.array (objects ++ objects2))).Perm (holding.held (.array objects) ++ objects2.map Ref.object) :=
    .of_eq List.map_append
  obtain ⟨cells', done, exact, bodies⟩ := fine.exact.receive (f := fun body => .array (body.objects ++ objects2)) there
    (fits_array _ _) back (fun ref member => List.mem_append_left _ (Holding.mem_holders there2 member)) (array_agrees _).sound
  refine ⟨cells', ?_, fine.change exact bodies (array_agrees _)⟩
  unfold arrayPushBackArray
  rw [found2]
  exact done

theorem arrayErase_fine {array idx : Nat} (fine : Fine cells outside) (owned : .array array ∈ outside)
    (bounded : ∀ cell, holding.deref cells (.array array) = some cell → idx < cell.body.objects.length) :
    ∃ cells', arrayErase cells array idx = some cells' ∧ Fine cells' outside := by
  obtain ⟨count, objects, found, there⟩ := fine.array owned
  have inside : idx < objects.length := bounded _ found
  have out : (holding.held (.array (objects.eraseIdx idx)) ++ [Ref.object objects[idx]]).Perm (holding.held (.array objects)) := by
    have erased := (List.getElem_cons_eraseIdx_perm inside).map Ref.object
    exact List.perm_append_comm.trans erased
  obtain ⟨cells', done, exact, bodies⟩ := fine.exact.forget (f := fun body => .array (body.objects.eraseIdx idx)) there owned rfl
    (fits_array _ _) out (array_agrees _).sound
  refine ⟨cells', ?_, fine.change exact bodies (array_agrees _)⟩
  unfold arrayErase
  rw [found, Option.bind_some]
  dsimp only [Body.objects]
  rw [List.getElem?_eq_getElem inside]
  exact done

end Heap

end Braidcast.Data
