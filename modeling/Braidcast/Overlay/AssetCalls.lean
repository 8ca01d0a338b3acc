import Braidcast.Overlay.Assets

/-!
# The files a call relies on

Each call in progress relies on files: the temporary file it has written, the file it has
put in place and not registered yet, the files its copy still needs. A row relies on its
own. The steps of a call keep that account where they disturb no other's file.
-/
namespace Braidcast.Overlay

open Lib

/-! ### What a call relies on -/

theorem AssetFiles.mem_list {files : AssetFiles} {folder name : String} {bytes : Bytes}
    (there : files.read (folder, name) = some bytes) : name ∈ AssetFiles.list files folder := by
  obtain ⟨f, member, named⟩ := List.mem_map.mp (Files.mem_names there)
  refine List.mem_map.mpr ⟨f, List.mem_filter.mpr ⟨member, ?_⟩, ?_⟩
  · rw [named]
    simp
  · rw [named]

/-- A file, with the bytes someone relies on it to hold. -/
structure AssetFile where
  folder : String
  name : String
  bytes : Bytes

/-- A file a step writes or deletes; the row of the asset `own` names is about to be
registered anew, so it relies on nothing. -/
structure Disturbance where
  folder : String
  name : String
  own : Option String

namespace AssetCall

variable (fold : String → String)

/-- The widget the call was made on, or whose folder it is about to drop. -/
def targets : AssetCall → List String
  | .adding id _ _ | .removing id _ | .copying id _ _ | .dropping id => [id]
  | .returned => []

/-- The id of a copy that is not registered yet. -/
def pending : AssetCall → List String
  | .copying _ copy _ => [copy.id]
  | _ => []

/-- The files the call relies on, with the bytes it relies on them to hold. -/
def holds : AssetCall → List AssetFile
  | .adding id asset .tempWritten => [⟨id, fold (atomicWriteTempPath asset.file), asset.bytes⟩]
  | .adding id asset .replaced => [⟨id, fold asset.file, asset.bytes⟩]
  | .copying id copy none => copy.assets.map fun a => ⟨id, fold a.file, a.bytes⟩
  | .copying id copy (some left) =>
    copy.assets.map fun a => ⟨if fold a.file ∈ left then id else copy.id, fold a.file, a.bytes⟩
  | _ => []

/-- The files the call's next step writes or deletes. -/
def disturbs : AssetCall → List Disturbance
  | .adding id asset .checked => [⟨id, fold (atomicWriteTempPath asset.file), none⟩]
  | .adding id asset .tempWritten =>
    [⟨id, fold asset.file, some asset.file⟩, ⟨id, fold (atomicWriteTempPath asset.file), none⟩]
  | .removing id file => [⟨id, fold file, none⟩]
  | _ => []

/-- The call has put a file in place for a row and will register it. -/
def Rewrites (id file : String) : AssetCall → Prop
  | .adding id' asset .replaced => id' = id ∧ asset.file = file
  | _ => False

instance (id file : String) : (call : AssetCall) → Decidable (call.Rewrites id file)
  | .adding _ _ .replaced => inferInstanceAs (Decidable (_ ∧ _))
  | .adding _ _ .checked | .adding _ _ .tempWritten => inferInstanceAs (Decidable False)
  | .removing _ _ | .copying _ _ _ | .dropping _ | .returned => inferInstanceAs (Decidable False)

end AssetCall

namespace OverlayStore

variable (fold : String → String)

def ids (s : OverlayStore) : List String :=
  s.widgets.map Widget.id

/-- No other call and no other row relies on the file. -/
def Free (s : OverlayStore) (k : Nat) (d : Disturbance) : Prop :=
  (∀ w ∈ s.widgets, w.id = d.folder → ∀ a ∈ w.assets, some a.file ≠ d.own → fold a.file ≠ d.name) ∧
    ∀ call ∈ s.calls.eraseIdx k, ∀ held ∈ call.holds fold, ¬ (held.folder = d.folder ∧ held.name = d.name)

instance (s : OverlayStore) (k : Nat) (d : Disturbance) : Decidable (s.Free fold k d) :=
  inferInstanceAs (Decidable (_ ∧ _))

/-- Where the step writes or deletes a file of a stored widget, nothing else relies on it; a
`Duplicate` starts while no file of its rows waits to be registered. -/
def Undisturbed (s : OverlayStore) : AssetStep → Prop
  | .writeTemp k | .replaceFile k | .deleteFile k =>
    ∀ call ∈ s.calls[k]?, ∀ d ∈ call.disturbs fold, d.folder ∈ s.ids → s.Free fold k d
  | .duplicate id _ => ∀ w ∈ s.findWidget id, ∀ a ∈ w.assets, ∀ call ∈ s.calls, ¬ call.Rewrites id a.file
  | _ => True

instance (s : OverlayStore) : (i : AssetStep) → Decidable (s.Undisturbed fold i)
  | .writeTemp k => inferInstanceAs (Decidable (∀ call ∈ s.calls[k]?, ∀ d ∈ call.disturbs fold, d.folder ∈ s.ids → s.Free fold k d))
  | .replaceFile k => inferInstanceAs (Decidable (∀ call ∈ s.calls[k]?, ∀ d ∈ call.disturbs fold, d.folder ∈ s.ids → s.Free fold k d))
  | .deleteFile k => inferInstanceAs (Decidable (∀ call ∈ s.calls[k]?, ∀ d ∈ call.disturbs fold, d.folder ∈ s.ids → s.Free fold k d))
  | .duplicate id _ =>
    inferInstanceAs (Decidable (∀ w ∈ s.findWidget id, ∀ a ∈ w.assets, ∀ call ∈ s.calls, ¬ call.Rewrites id a.file))
  | .addAsset .. | .registerAsset .. | .removeAsset .. | .listDir .. | .copyFile .. | .registerCopy .. | .delete ..
  | .removeDir .. => inferInstanceAs (Decidable True)

/-! ### The invariant -/

def pending (s : OverlayStore) : List String :=
  s.calls.flatMap AssetCall.pending

structure Sound (s : OverlayStore) : Prop where
  distinct : (s.ids ++ s.pending).Nodup
  known : ∀ id, id ∈ s.ids ++ s.pending → id ∈ s.issued
  /-- The widgets of the calls were given out too, and are not copies on their way. -/
  apart : ∀ call ∈ s.calls, ∀ id ∈ call.targets, id ∈ s.issued ∧ id ∉ s.pending
  dropped : ∀ id, AssetCall.dropping id ∈ s.calls → id ∉ s.ids
  rows : ∀ w ∈ s.widgets, ∀ a ∈ w.assets, s.files.read (w.id, fold a.file) = some a.bytes ∨
    ∃ call ∈ s.calls, call.Rewrites w.id a.file
  held : ∀ call ∈ s.calls, (∀ id ∈ call.targets, id ∈ s.ids) → ∀ h ∈ call.holds fold,
    s.files.read (h.folder, h.name) = some h.bytes

variable {fold} {s s' : OverlayStore} {k : Nat} {call call' : AssetCall}

theorem calls_perm (there : s.calls[k]? = some call) : s.calls.Perm (call :: s.calls.eraseIdx k) := by
  obtain ⟨bound, rfl⟩ := List.getElem?_eq_some_iff.mp there
  exact (List.getElem_cons_eraseIdx_perm bound).symm

/-- A call relies on files of its widget's folder and of its copy's. -/
theorem holds_folder {h : AssetFile} (held : h ∈ call.holds fold) : h.folder ∈ call.targets ++ call.pending := by
  cases call with
  | adding id asset phase =>
    cases phase with
    | checked => cases held
    | tempWritten | replaced =>
      rw [List.mem_singleton.mp held]
      exact List.mem_singleton.mpr rfl
  | copying id copy left =>
    cases left with
    | none =>
      obtain ⟨a, _, rfl⟩ := List.mem_map.mp held
      exact List.mem_cons_self
    | some left =>
      obtain ⟨a, _, rfl⟩ := List.mem_map.mp held
      simp only [AssetCall.targets, AssetCall.pending]
      split <;> simp
  | removing id file => cases held
  | dropping id => cases held
  | returned => cases held

/-- A step of call `k` that leaves the widgets alone, and what it owes. -/
structure Turns (fold : String → String) (s s' : OverlayStore) (k : Nat) (call call' : AssetCall) : Prop where
  frame : s' = { s with calls := s.calls.set k call', files := s'.files }
  pending : call'.pending = call.pending ∨ call'.pending = []
  targets : ∀ id ∈ call'.targets, id ∈ call.targets ∨ id ∈ call.pending ∧ call'.pending = []
  dropped : ∀ id, call' = .dropping id → id ∉ s.ids
  rewrites : ∀ id file, id ∈ s.ids → call.Rewrites id file → call'.Rewrites id file
  rows : ∀ w ∈ s.widgets, ∀ a ∈ w.assets, s.files.read (w.id, fold a.file) = some a.bytes →
    s'.files.read (w.id, fold a.file) = some a.bytes ∨ call'.Rewrites w.id a.file
  others : ∀ other ∈ s.calls.eraseIdx k, (∀ id ∈ other.targets, id ∈ s.ids) → ∀ h ∈ other.holds fold,
    s.files.read (h.folder, h.name) = some h.bytes → s'.files.read (h.folder, h.name) = some h.bytes
  own : (∀ id ∈ call'.targets, id ∈ s.ids) → ∀ h ∈ call'.holds fold, s'.files.read (h.folder, h.name) = some h.bytes

theorem Sound.turn (sound : s.Sound fold) (call' : AssetCall) (there : s.calls[k]? = some call)
    (turns : Turns fold s s' k call call') : s'.Sound fold := by
  obtain ⟨frame, pending, targets, dropped, rewrites, rows, others, own⟩ := turns
  have widgets : s'.widgets = s.widgets := by rw [frame]
  have issued : s'.issued = s.issued := by rw [frame]
  have bound := (List.getElem?_eq_some_iff.mp there).1
  have before := calls_perm there
  -- the calls are `call` and the others before, `call'` and the same others after
  have after : s'.calls.Perm (call' :: s.calls.eraseIdx k) := by
    rw [frame]
    exact List.set_perm_cons_eraseIdx bound call'
  have ids : s'.ids = s.ids := by rw [OverlayStore.ids, OverlayStore.ids, widgets]
  have pendingBefore : s.pending.Perm (call.pending ++ (s.calls.eraseIdx k).flatMap AssetCall.pending) :=
    before.flatMap_right _
  have pendingAfter : s'.pending.Perm (call'.pending ++ (s.calls.eraseIdx k).flatMap AssetCall.pending) :=
    after.flatMap_right _
  -- no copy is begun by such a step
  have fewer : ∀ id ∈ s'.pending, id ∈ s.pending := by
    intro id member
    rw [pendingBefore.mem_iff]
    rw [pendingAfter.mem_iff] at member
    rcases pending with same | none
    · rw [← same]
      exact member
    · rw [none] at member
      exact List.mem_append_right _ member
  have distinct := sound.distinct
  rw [(pendingBefore.append_left s.ids).nodup_iff] at distinct
  refine ⟨?_, ?_, ?_, ?_, ?_, ?_⟩
  · rw [ids, (pendingAfter.append_left s.ids).nodup_iff]
    rcases pending with same | none
    · rw [same]
      exact distinct
    · rw [none]
      exact distinct.sublist ((List.sublist_append_right _ _).append_left _)
  · intro id member
    rw [ids] at member
    rw [issued]
    exact sound.known id (List.mem_append.mpr ((List.mem_append.mp member).imp_right (fewer id)))
  · intro other member id target
    rw [issued]
    rcases List.mem_cons.mp (after.mem_iff.mp member) with rfl | old
    · rcases targets id target with same | ⟨copy, none⟩
      · obtain ⟨known, apart⟩ := sound.apart call (before.mem_iff.mpr List.mem_cons_self) id same
        exact ⟨known, fun later => apart (fewer id later)⟩
      · -- the copy's own id was pending once, and no other call's copy has it
        have was : id ∈ s.pending := pendingBefore.mem_iff.mpr (List.mem_append_left _ copy)
        refine ⟨sound.known id (List.mem_append_right _ was), fun later => ?_⟩
        rw [pendingAfter.mem_iff, none, List.nil_append] at later
        have disjoint := (List.nodup_append.mp (List.nodup_append.mp distinct).2.1).2.2
        exact disjoint id copy id later rfl
    · obtain ⟨known, apart⟩ := sound.apart other (before.mem_iff.mpr (List.mem_cons_of_mem _ old)) id target
      exact ⟨known, fun later => apart (fewer id later)⟩
  · intro id member
    rw [ids]
    rcases List.mem_cons.mp (after.mem_iff.mp member) with same | old
    · exact dropped id same.symm
    · exact sound.dropped id (before.mem_iff.mpr (List.mem_cons_of_mem _ old))
  · intro w stored a row
    rw [widgets] at stored
    -- the row's file is there and the step answers for it, or a call that is to write it goes on
    rcases sound.rows w stored a row with filed | ⟨other, member, rewriting⟩
    · refine (rows w stored a row filed).imp_right fun rewriting => ⟨call', ?_, rewriting⟩
      exact after.mem_iff.mpr List.mem_cons_self
    · rcases List.mem_cons.mp (before.mem_iff.mp member) with rfl | old
      · have still := rewrites w.id a.file (List.mem_map_of_mem stored) rewriting
        exact .inr ⟨call', after.mem_iff.mpr List.mem_cons_self, still⟩
      · exact .inr ⟨other, after.mem_iff.mpr (List.mem_cons_of_mem _ old), rewriting⟩
  · intro other member targeted h held
    rw [ids] at targeted
    rcases List.mem_cons.mp (after.mem_iff.mp member) with rfl | old
    · exact own targeted h held
    · exact others other old targeted h held (sound.held other (before.mem_iff.mpr (List.mem_cons_of_mem _ old)) targeted h held)

/-! ### A call's steps -/

theorem row_apart {folder name : String} {own : Option String} (free : folder ∈ s.ids → s.Free fold k ⟨folder, name, own⟩)
    {w : Widget} (stored : w ∈ s.widgets) {a : Asset} (row : a ∈ w.assets) (other : some a.file ≠ own) :
    ¬ (w.id = folder ∧ fold a.file = name) := by
  rintro ⟨rfl, same⟩
  exact (free (List.mem_map_of_mem stored)).1 w stored rfl a row other same

section

variable (sound : s.Sound fold)
include sound

/-- What other calls rely on is out of reach of a step that is undisturbed: in a stored
widget's folder by the condition, in any other because nothing there matters. -/
theorem Sound.held_apart (there : s.calls[k]? = some call) {folder name : String} {own : Option String}
    (target : folder ∈ call.targets) (free : folder ∈ s.ids → s.Free fold k ⟨folder, name, own⟩) {other : AssetCall}
    (member : other ∈ s.calls.eraseIdx k) (stored : ∀ id ∈ other.targets, id ∈ s.ids) {h : AssetFile}
    (held : h ∈ other.holds fold) : ¬ (h.folder = folder ∧ h.name = name) := by
  rintro ⟨rfl, same⟩
  -- in the folder of a stored widget the step is undisturbed
  by_cases known : h.folder ∈ s.ids
  · exact (free known).2 other member h held ⟨rfl, same⟩
  -- any other folder is a copy's own, and the call is not about that
  · rcases List.mem_append.mp (holds_folder held) with source | copy
    · exact known (stored _ source)
    · have pending : h.folder ∈ s.pending :=
        List.mem_flatMap.mpr ⟨other, List.mem_of_mem_eraseIdx member, copy⟩
      exact (sound.apart call (List.mem_of_getElem? there) _ target).2 pending

variable {id : String}

theorem Sound.writeTemp {asset : Asset} (there : s.calls[k]? = some (.adding id asset .checked))
    (free : id ∈ s.ids → s.Free fold k ⟨id, fold (atomicWriteTempPath asset.file), none⟩) :
    Sound fold { s.setCall k (.adding id asset .tempWritten) with
      files := s.files.write (id, fold (atomicWriteTempPath asset.file)) asset.bytes } := by
  apply sound.turn (.adding id asset .tempWritten) there
  exact {
    frame := rfl
    pending := .inl rfl
    targets := fun _ target => .inl target
    dropped := nofun
    rewrites := nofun
    rows := by
      intro w stored a row filed
      simp only [Files.read_write, Prod.mk.injEq, if_neg (row_apart free stored row (by simp))]
      exact .inl filed
    others := by
      intro other member stored h held before
      simp only [Files.read_write, Prod.mk.injEq, if_neg (sound.held_apart there List.mem_cons_self free member stored held)]
      exact before
    own := by
      intro _ h held
      rw [List.mem_singleton.mp held]
      simp }

theorem Sound.replaceFile {asset : Asset} {bytes : Bytes} (there : s.calls[k]? = some (.adding id asset .tempWritten))
    (temp : s.files.read (id, fold (atomicWriteTempPath asset.file)) = some bytes)
    (free : id ∈ s.ids → s.Free fold k ⟨id, fold asset.file, some asset.file⟩)
    (freeTemp : id ∈ s.ids → s.Free fold k ⟨id, fold (atomicWriteTempPath asset.file), none⟩) :
    Sound fold { s.setCall k (.adding id asset .replaced) with
      files := (s.files.delete (id, fold (atomicWriteTempPath asset.file))).write (id, fold asset.file) bytes } := by
  apply sound.turn (.adding id asset .replaced) there
  exact {
    frame := rfl
    pending := .inl rfl
    targets := fun _ target => .inl target
    dropped := nofun
    rewrites := nofun
    -- the row of the file itself is the one the call rewrites
    rows := by
      intro w stored a row filed
      by_cases own : w.id = id ∧ a.file = asset.file
      · exact .inr ⟨own.1.symm, own.2.symm⟩
      · have place : ¬ (w.id = id ∧ fold a.file = fold asset.file) := by
          rintro ⟨folder, name⟩
          exact row_apart free stored row (fun same => own ⟨folder, Option.some.inj same⟩) ⟨folder, name⟩
        simp only [Files.read_write, Files.read_delete, Prod.mk.injEq, if_neg place,
          if_neg (row_apart freeTemp stored row (by simp))]
        exact .inl filed
    others := by
      intro other member stored h held before
      simp only [Files.read_write, Files.read_delete, Prod.mk.injEq,
        if_neg (sound.held_apart there List.mem_cons_self free member stored held),
        if_neg (sound.held_apart there List.mem_cons_self freeTemp member stored held)]
      exact before
    own := by
      intro stored h held
      -- the temp file still holds what this call wrote to it
      have written := sound.held _ (List.mem_of_getElem? there) stored _ List.mem_cons_self
      rw [List.mem_singleton.mp held]
      simp only [Files.read_write, if_true]
      exact temp.symm.trans written }

/-- A call's last step takes files away that no row and no other call relies on. -/
theorem Sound.returns {files : AssetFiles} (there : s.calls[k]? = some call) (rewrites : ∀ id file, ¬ call.Rewrites id file)
    (rows : ∀ w ∈ s.widgets, ∀ a ∈ w.assets, files.read (w.id, fold a.file) = s.files.read (w.id, fold a.file))
    (others : ∀ other ∈ s.calls.eraseIdx k, (∀ id ∈ other.targets, id ∈ s.ids) → ∀ h ∈ other.holds fold,
      files.read (h.folder, h.name) = s.files.read (h.folder, h.name)) :
    Sound fold { s.setCall k .returned with files } := by
  apply sound.turn .returned there
  exact {
    frame := rfl
    pending := .inr rfl
    targets := nofun
    dropped := nofun
    rewrites := fun id file _ rewriting => absurd rewriting (rewrites id file)
    rows := by
      intro w stored a row filed
      exact .inl ((rows w stored a row).trans filed)
    others := by
      intro other member stored h held before
      exact (others other member stored h held).trans before
    own := by
      intro _ h held
      cases held }

theorem Sound.deleteFile {id file : String} (there : s.calls[k]? = some (.removing id file))
    (free : id ∈ s.ids → s.Free fold k ⟨id, fold file, none⟩) :
    Sound fold { s.setCall k .returned with files := s.files.delete (id, fold file) } := by
  apply sound.returns there (fun _ _ rewriting => rewriting)
  · intro w stored a row
    simp only [Files.read_delete, Prod.mk.injEq, if_neg (row_apart free stored row (by simp))]
  · intro other member stored h held
    simp only [Files.read_delete, Prod.mk.injEq, if_neg (sound.held_apart there List.mem_cons_self free member stored held)]

/-- A call that ends, or turns to dropping a folder, without a file operation. -/
theorem Sound.setCall (there : s.calls[k]? = some call) (ends : call'.holds fold = [])
    (pending : call'.pending = []) (targets : ∀ id ∈ call'.targets, id ∈ call.targets ∨ id ∈ call.pending)
    (dropped : ∀ id, call' = .dropping id → id ∉ s.ids) (rewrites : ∀ id file, id ∈ s.ids → ¬ call.Rewrites id file) :
    (s.setCall k call').Sound fold := by
  apply sound.turn _ there
  exact {
    frame := rfl
    pending := .inr pending
    targets := fun id target => (targets id target).imp_right fun copy => ⟨copy, pending⟩
    dropped := dropped
    rewrites := fun id file known rewriting => absurd rewriting (rewrites id file known)
    rows := fun w stored a row filed => .inl filed
    others := fun other member stored h held before => before
    own := by
      intro _ h held
      rw [ends] at held
      cases held }

theorem Sound.not_stored_of_pending (pending : id ∈ s.pending) : id ∉ s.ids :=
  fun stored => (List.nodup_append.mp sound.distinct).2.2 id stored id pending rfl

/-- A copy that is given up: its folder is dropped. -/
theorem Sound.dropCopy {copy : Widget} {left : Option (List String)}
    (there : s.calls[k]? = some (.copying id copy left)) : (s.setCall k (.dropping copy.id)).Sound fold := by
  have pending : copy.id ∈ s.pending := List.mem_flatMap.mpr ⟨_, List.mem_of_getElem? there, List.mem_cons_self⟩
  refine sound.setCall there rfl rfl (fun _ target => .inr target) ?_ (by simp [AssetCall.Rewrites])
  rintro _ same
  cases same
  exact sound.not_stored_of_pending pending

theorem Sound.listDir {copy : Widget} (there : s.calls[k]? = some (.copying id copy none)) :
    (s.setCall k (.copying id copy (some (AssetFiles.list s.files id)))).Sound fold := by
  apply sound.turn (.copying id copy (some (AssetFiles.list s.files id))) there
  exact {
    frame := rfl
    pending := .inl rfl
    targets := fun _ target => .inl target
    dropped := nofun
    rewrites := nofun
    rows := fun w stored a row filed => .inl filed
    others := fun other member stored h held before => before
    -- every file the copy's rows name is in the listing, so none is copied yet
    own := by
      intro stored h held
      obtain ⟨a, row, rfl⟩ := List.mem_map.mp held
      have source := sound.held _ (List.mem_of_getElem? there) stored ⟨id, fold a.file, a.bytes⟩ (List.mem_map_of_mem row)
      simp only [if_pos (AssetFiles.mem_list source)]
      exact source }

/-- A copy's folder is its call's own. -/
theorem Sound.copy_apart (there : s.calls[k]? = some call) (own : id ∈ call.pending)
    {other : AssetCall} (member : other ∈ s.calls.eraseIdx k) (stored : ∀ id ∈ other.targets, id ∈ s.ids) {h : AssetFile}
    (held : h ∈ other.holds fold) : h.folder ≠ id := by
  rintro rfl
  have pending : h.folder ∈ s.pending := List.mem_flatMap.mpr ⟨call, List.mem_of_getElem? there, own⟩
  rcases List.mem_append.mp (holds_folder held) with target | copy
  · exact sound.not_stored_of_pending pending (stored _ target)
  · have perm := (calls_perm there).flatMap_right AssetCall.pending
    have nodup := (List.nodup_append.mp sound.distinct).2.1
    rw [OverlayStore.pending, perm.nodup_iff, List.flatMap_cons] at nodup
    have later : h.folder ∈ (s.calls.eraseIdx k).flatMap AssetCall.pending := List.mem_flatMap.mpr ⟨other, member, copy⟩
    exact (List.nodup_append.mp nodup).2.2 _ own _ later rfl

theorem Sound.copyFile {id name : String} {copy : Widget} {left : List String} {bytes : Bytes}
    (there : s.calls[k]? = some (.copying id copy (some (name :: left))))
    (source : s.files.read (id, name) = some bytes) :
    Sound fold { s.setCall k (.copying id copy (some left)) with files := s.files.write (copy.id, name) bytes } := by
  have pending : copy.id ∈ s.pending := List.mem_flatMap.mpr ⟨_, List.mem_of_getElem? there, List.mem_cons_self⟩
  have unstored := sound.not_stored_of_pending pending
  apply sound.turn (.copying id copy (some left)) there
  exact {
    frame := rfl
    pending := .inl rfl
    targets := fun _ target => .inl target
    dropped := nofun
    rewrites := nofun
    rows := by
      intro w stored a row filed
      have folder : w.id ≠ copy.id := fun same => unstored (same ▸ List.mem_map_of_mem stored)
      simp only [Files.read_write, Prod.mk.injEq, folder, false_and, if_false]
      exact .inl filed
    others := by
      intro other member stored h held before
      have folder := sound.copy_apart there List.mem_cons_self member stored held
      simp only [Files.read_write, Prod.mk.injEq, folder, false_and, if_false]
      exact before
    own := by
      intro stored h held
      obtain ⟨a, row, rfl⟩ := List.mem_map.mp held
      have folder : id ≠ copy.id := fun same => unstored (same ▸ stored id List.mem_cons_self)
      have before := sound.held _ (List.mem_of_getElem? there) stored
        ⟨if fold a.file ∈ name :: left then id else copy.id, fold a.file, a.bytes⟩ (List.mem_map_of_mem row)
      simp only [Files.read_write, Prod.mk.injEq] at before ⊢
      -- still to be copied, copied by this step, or copied before
      by_cases more : fold a.file ∈ left
      · simp only [if_pos more, if_pos (List.mem_cons_of_mem name more), folder, false_and, if_false] at before ⊢
        exact before
      · by_cases here : fold a.file = name
        · simp only [here, List.mem_cons_self, if_true] at before
          rw [here] at more
          simp only [if_neg more, here, and_self, if_true]
          exact source.symm.trans before
        · have gone : fold a.file ∉ name :: left := fun member => (List.mem_cons.mp member).elim here more
          simp only [if_neg gone] at before
          simp only [if_neg more, here, and_false, if_false]
          exact before }

theorem Sound.removeDir (there : s.calls[k]? = some (.dropping id)) :
    Sound fold { s.setCall k .returned with files := AssetFiles.removeWidgetDir s.files id } := by
  -- the folder's widget is gone, and no copy is on its way to it
  have unstored := sound.dropped id (List.mem_of_getElem? there)
  have apart := (sound.apart _ (List.mem_of_getElem? there) id List.mem_cons_self).2
  apply sound.returns there (fun _ _ rewriting => rewriting)
  · intro w stored a row
    have folder : w.id ≠ id := fun same => unstored (same ▸ List.mem_map_of_mem stored)
    simp only [AssetFiles.removeWidgetDir, Files.read_deleteWhere, decide_eq_true_eq, if_neg folder]
  · intro other member stored h held
    have folder : h.folder ≠ id := by
      rintro rfl
      rcases List.mem_append.mp (holds_folder held) with target | copy
      · exact unstored (stored _ target)
      · exact apart (List.mem_flatMap.mpr ⟨other, List.mem_of_mem_eraseIdx member, copy⟩)
    simp only [AssetFiles.removeWidgetDir, Files.read_deleteWhere, decide_eq_true_eq, if_neg folder]

end

end OverlayStore

end Braidcast.Overlay
