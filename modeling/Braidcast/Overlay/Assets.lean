import Braidcast.Lib.Files
import Braidcast.Lib.Run

/-!
# The overlay store's assets

A widget's asset rows are in the registry, under `mutex_`; the bytes are files in the
widget's folder, written and deleted with the mutex released. The steps below are the
locked sections and the file operations of the calls in progress, in any order. A file
operation fails only where the step before it in the folder makes it fail.
-/
namespace Braidcast.Overlay

open Lib

abbrev Bytes : Type := List UInt8

/-- A row of `assets[]`. `bytes` is no field of the source's: it is what the last `AddAsset`
registered for the row has written. -/
structure Asset where
  key : String
  kind : String
  file : String
  bytes : Bytes
  deriving DecidableEq

structure Widget where
  id : String
  name : String
  assets : List Asset
  rev : Nat := 0
  deriving DecidableEq

/-! ### File names -/

def assetChar (c : Char) : Bool :=
  (('A' ≤ c && c ≤ 'Z') || ('a' ≤ c && c ≤ 'z')) || (('0' ≤ c && c ≤ '9') || (c = '.' || (c = '_' || c = '-')))

/-- One `find("..")` and `erase(pos, 2)`; `none` where there is no ".." left. -/
def eraseFirstDots : List Char → Option (List Char)
  | [] => none
  | [_] => none
  | c :: d :: rest =>
    if c = '.' ∧ d = '.' then some rest else (eraseFirstDots (d :: rest)).map (c :: ·)

/-- The loop over `eraseFirstDots`; each turn takes two characters. -/
def eraseDots : Nat → List Char → List Char
  | 0, out => out
  | fuel + 1, out =>
    match eraseFirstDots out with
    | some shorter => eraseDots fuel shorter
    | none => out

def sanitizeAssetKey (key : String) : String :=
  let out := key.toList.filter assetChar
  String.ofList (eraseDots out.length out)

def atomicWriteTempPath (file : String) : String :=
  file ++ ".tmp"

theorem length_eraseFirstDots {out shorter : List Char} (found : eraseFirstDots out = some shorter) :
    shorter.length < out.length := by
  induction out generalizing shorter with
  | nil => cases found
  | cons c out ih =>
    cases out with
    | nil => cases found
    | cons d rest =>
      simp only [eraseFirstDots] at found
      split at found
      · cases found
        simp only [List.length_cons]
        omega
      · obtain ⟨tail, inner, rfl⟩ := Option.map_eq_some_iff.mp found
        have := ih inner
        simp only [List.length_cons] at this ⊢
        omega

/-- The loop ends for want of another "..", never for want of turns. -/
theorem eraseFirstDots_eraseDots {fuel : Nat} {out : List Char} (enough : out.length ≤ fuel) :
    eraseFirstDots (eraseDots fuel out) = none := by
  induction fuel generalizing out with
  | zero =>
    rw [List.length_eq_zero_iff.mp (Nat.le_zero.mp enough)]
    rfl
  | succ fuel ih =>
    simp only [eraseDots]
    split
    next shorter found =>
      have := length_eraseFirstDots found
      exact ih (by omega)
    next found => exact found

theorem eraseFirstDots_eq_none {out : List Char} : eraseFirstDots out = none ↔ ¬ ['.', '.'] <:+: out := by
  fun_induction eraseFirstDots out with
  | case1 => simp
  | case2 c => simp [List.infix_cons_iff]
  | case3 c d rest dots => simp [dots, List.infix_cons_iff]
  | case4 c d rest apart ih =>
    rw [Option.map_eq_none_iff, ih, List.infix_cons_iff (a := c)]
    simp [eq_comm, apart]

theorem mem_eraseDots {c : Char} {fuel : Nat} {out : List Char} (member : c ∈ eraseDots fuel out) : c ∈ out := by
  have first {out shorter : List Char} (found : eraseFirstDots out = some shorter) (member : c ∈ shorter) : c ∈ out := by
    fun_induction eraseFirstDots out generalizing shorter with grind -linarith [Option.map_eq_some_iff]
  fun_induction eraseDots fuel out with
  | case1 => exact member
  | case2 fuel out shorter found ih => exact first found (ih member)
  | case3 => exact member

/-- A sanitized key does not leave its folder, and sanitizing leaves it. -/
theorem sanitizeAssetKey_safe (key : String) :
    (∀ c ∈ (sanitizeAssetKey key).toList, assetChar c = true) ∧ ¬ ['.', '.'] <:+: (sanitizeAssetKey key).toList ∧
      sanitizeAssetKey (sanitizeAssetKey key) = sanitizeAssetKey key := by
  have gone := eraseFirstDots_eraseDots (Nat.le_refl (key.toList.filter assetChar).length)
  have safe : ∀ c ∈ (sanitizeAssetKey key).toList, assetChar c = true := fun c member => by
    rw [sanitizeAssetKey, String.toList_ofList] at member
    exact List.of_mem_filter (mem_eraseDots member)
  have still (n : Nat) : eraseDots n (sanitizeAssetKey key).toList = (sanitizeAssetKey key).toList := by
    rw [sanitizeAssetKey, String.toList_ofList]
    cases n with
    | zero => rfl
    | succ n => rw [eraseDots, gone]
  refine ⟨safe, by rwa [sanitizeAssetKey, String.toList_ofList, ← eraseFirstDots_eq_none], ?_⟩
  rw [sanitizeAssetKey, List.filter_eq_self.mpr safe, still, String.ofList_toList]
/-! ### Files -/

/-- The files of all widget folders, by folder and by the name the file system files them
under. -/
abbrev AssetFiles : Type := Files (String × String) Bytes

namespace AssetFiles

def removeWidgetDir (files : AssetFiles) (folder : String) : AssetFiles :=
  files.deleteWhere fun f => f.1 = folder

/-- The names in a folder. -/
def list (files : AssetFiles) (folder : String) : List String :=
  (files.filter fun f => f.1.1 = folder).map fun f => f.1.2

end AssetFiles

/-! ### Calls in progress -/

inductive AddPhase
  | checked
  | tempWritten
  | replaced
  deriving DecidableEq

/-- A call past its first locked section: `AddAsset`; `RemoveAsset` with its row gone;
`Duplicate` with its copy of the widget and what is left of the folder's listing; a call
about to drop a folder; and one that returned. -/
inductive AssetCall
  | adding (id : String) (asset : Asset) (phase : AddPhase)
  | removing (id file : String)
  | copying (id : String) (copy : Widget) (left : Option (List String))
  | dropping (id : String)
  | returned
  deriving DecidableEq

/-- `issued` lists every id a widget was ever given. -/
structure OverlayStore where
  widgets : List Widget := []
  files : AssetFiles := []
  calls : List AssetCall := []
  issued : List String := []

inductive AssetStep
  | addAsset (id key kind : String) (bytes : Bytes)
  | writeTemp (call : Nat)
  | replaceFile (call : Nat)
  | registerAsset (call : Nat)
  | removeAsset (id file : String)
  | deleteFile (call : Nat)
  | duplicate (id copyId : String)
  | listDir (call : Nat)
  | copyFile (call : Nat)
  | registerCopy (call : Nat)
  | delete (id : String)
  | removeDir (call : Nat)

namespace OverlayStore

def findWidget (s : OverlayStore) (id : String) : Option Widget :=
  s.widgets.find? fun w => w.id = id

/-- `change` applied to the widget `FindWidget` gives. -/
def modifyWidget (change : Widget → Widget) (id : String) : List Widget → List Widget
  | [] => []
  | w :: rest => if w.id = id then change w :: rest else w :: modifyWidget change id rest

def setCall (s : OverlayStore) (k : Nat) (call : AssetCall) : OverlayStore :=
  { s with calls := s.calls.set k call }

/-- The rows with the asset registered: its own row keeps its key and kind. -/
def registerRow (asset : Asset) (assets : List Asset) : List Asset :=
  if assets.any (·.file = asset.file) then
    assets.map fun a => if a.file = asset.file then { a with bytes := asset.bytes } else a
  else assets ++ [asset]

variable (fold : String → String)

/-- One step of call `k`. -/
def callStep (s : OverlayStore) (k : Nat) (call : AssetCall) : AssetStep → Option OverlayStore
  | .writeTemp _ =>
    match call with
    | .adding id asset .checked =>
      some { s.setCall k (.adding id asset .tempWritten) with
        files := s.files.write (id, fold (atomicWriteTempPath asset.file)) asset.bytes }
    | _ => none
  | .replaceFile _ =>
    match call with
    | .adding id asset .tempWritten =>
      match s.files.read (id, fold (atomicWriteTempPath asset.file)) with
      | some bytes =>
        some { s.setCall k (.adding id asset .replaced) with
          files := (s.files.delete (id, fold (atomicWriteTempPath asset.file))).write (id, fold asset.file) bytes }
      -- there is no temporary file any more: the replace fails and no row is registered
      | none => some (s.setCall k .returned)
    | _ => none
  | .registerAsset _ =>
    match call with
    | .adding id asset .replaced =>
      if (s.findWidget id).isSome then
        some { s.setCall k .returned with
          widgets := modifyWidget (fun w => { w with assets := registerRow asset w.assets, rev := w.rev + 1 }) id s.widgets }
      -- the widget was deleted meanwhile, and with it the folder the file was put in
      else some (s.setCall k (.dropping id))
    | _ => none
  | .deleteFile _ =>
    match call with
    | .removing id file => some { s.setCall k .returned with files := s.files.delete (id, fold file) }
    | _ => none
  | .listDir _ =>
    match call with
    | .copying id copy none => some (s.setCall k (.copying id copy (some (AssetFiles.list s.files id))))
    | _ => none
  | .copyFile _ =>
    match call with
    | .copying id copy (some (name :: left)) =>
      match s.files.read (id, name) with
      | some bytes =>
        some { s.setCall k (.copying id copy (some left)) with files := s.files.write (copy.id, name) bytes }
      -- a file of the listing is gone: the copy is given up
      | none => some (s.setCall k (.dropping copy.id))
    | _ => none
  | .registerCopy _ =>
    match call with
    | .copying id copy (some []) =>
      if (s.findWidget id).isSome then some { s.setCall k .returned with widgets := s.widgets ++ [copy] }
      -- the source was deleted while its files were copied
      else some (s.setCall k (.dropping copy.id))
    | _ => none
  | .removeDir _ =>
    match call with
    | .dropping id => some { s.setCall k .returned with files := AssetFiles.removeWidgetDir s.files id }
    | _ => none
  | _ => none

/-- A `Duplicate` takes an id never given before. -/
def step (s : OverlayStore) : AssetStep → Option OverlayStore
  | .addAsset id key kind bytes =>
    let file := sanitizeAssetKey key
    if file = "" then some s
    else if (s.findWidget id).isSome then
      some { s with calls := s.calls ++ [.adding id { key, kind, file, bytes } .checked] }
    else some s
  | .removeAsset id file =>
    let safeFile := sanitizeAssetKey file
    if safeFile = "" then some s
    else
      match s.findWidget id with
      | none => some s
      | some target =>
        if target.assets.any (·.file = safeFile) then
          some { s with
            -- the row goes under the lock, the file after it
            widgets := modifyWidget (fun w => { w with assets := w.assets.filter (·.file ≠ safeFile) }) id s.widgets
            calls := s.calls ++ [.removing id safeFile] }
        else some s
  | .duplicate id copyId =>
    match s.findWidget id with
    | none => some s
    | some source =>
      if copyId ∈ s.issued then none
      else
        some { s with
          calls := s.calls ++ [.copying id { source with id := copyId, name := source.name ++ " copy" } none]
          issued := copyId :: s.issued }
  | .delete id =>
    if (s.findWidget id).isSome then
      some { s with
        widgets := s.widgets.filter (·.id ≠ id)
        calls := s.calls ++ [.dropping id] }
    else some s
  | .writeTemp k => s.calls[k]?.bind fun call => s.callStep fold k call (.writeTemp k)
  | .replaceFile k => s.calls[k]?.bind fun call => s.callStep fold k call (.replaceFile k)
  | .registerAsset k => s.calls[k]?.bind fun call => s.callStep fold k call (.registerAsset k)
  | .deleteFile k => s.calls[k]?.bind fun call => s.callStep fold k call (.deleteFile k)
  | .listDir k => s.calls[k]?.bind fun call => s.callStep fold k call (.listDir k)
  | .copyFile k => s.calls[k]?.bind fun call => s.callStep fold k call (.copyFile k)
  | .registerCopy k => s.calls[k]?.bind fun call => s.callStep fold k call (.registerCopy k)
  | .removeDir k => s.calls[k]?.bind fun call => s.callStep fold k call (.removeDir k)

/-- No call is in progress. -/
def Quiet (s : OverlayStore) : Prop :=
  ∀ call ∈ s.calls, call = .returned

instance (s : OverlayStore) : Decidable s.Quiet :=
  inferInstanceAs (Decidable (∀ call ∈ s.calls, call = .returned))

/-- Every row's file is there and holds what was last registered for the row. -/
def Filed (s : OverlayStore) : Prop :=
  ∀ w ∈ s.widgets, ∀ asset ∈ w.assets, s.files.read (w.id, fold asset.file) = some asset.bytes

instance (s : OverlayStore) : Decidable (s.Filed fold) :=
  inferInstanceAs (Decidable (∀ w ∈ s.widgets, ∀ asset ∈ w.assets, _ = some asset.bytes))

end OverlayStore

end Braidcast.Overlay
