import Braidcast.Overlay.AssetCalls

/-!
# Every asset has its file

The steps that start a call or change the registry keep the account of files too, so while no
step writes or deletes a file that another call or another row relies on, every row has its
file whenever no call is in progress.
-/
namespace Braidcast.Overlay

open Lib

namespace OverlayStore

variable {fold : String → String} {s s' : OverlayStore} {k : Nat} {call : AssetCall}

/-! ### Steps on the registry -/

variable {change : Widget → Widget} {id : String}

theorem map_id_modifyWidget (same : ∀ w, (change w).id = w.id) (widgets : List Widget) :
    (modifyWidget change id widgets).map Widget.id = widgets.map Widget.id := by
  induction widgets with
  | nil => rfl
  | cons w rest ih =>
    simp only [modifyWidget]
    split
    · rw [List.map_cons, List.map_cons, same]
    · rw [List.map_cons, List.map_cons, ih]

/-- With ids told apart, the one widget of that id is changed. -/
theorem mem_modifyWidget {widgets : List Widget} (distinct : (widgets.map Widget.id).Nodup) {w : Widget}
    (member : w ∈ modifyWidget change id widgets) :
    w ∈ widgets ∧ w.id ≠ id ∨ ∃ old ∈ widgets, old.id = id ∧ w = change old := by
  induction widgets with
  | nil => cases member
  | cons first rest ih =>
    obtain ⟨new, distinct⟩ := List.nodup_cons.mp distinct
    simp only [modifyWidget] at member
    split at member
    next here =>
      rcases List.mem_cons.mp member with rfl | later
      · exact .inr ⟨first, List.mem_cons_self, here, rfl⟩
      · refine .inl ⟨List.mem_cons_of_mem _ later, fun same => new ?_⟩
        rw [here, ← same]
        exact List.mem_map_of_mem later
    next elsewhere =>
      rcases List.mem_cons.mp member with rfl | later
      · exact .inl ⟨List.mem_cons_self, elsewhere⟩
      · rcases ih distinct later with ⟨old, apart⟩ | ⟨old, inside, named, rfl⟩
        · exact .inl ⟨List.mem_cons_of_mem _ old, apart⟩
        · exact .inr ⟨old, List.mem_cons_of_mem _ inside, named, rfl⟩

theorem mem_ids_of_findWidget {w : Widget} (found : s.findWidget id = some w) : w ∈ s.widgets ∧ w.id = id :=
  ⟨List.mem_of_find?_eq_some found, by simpa using List.find?_some found⟩

theorem isSome_findWidget : (s.findWidget id).isSome ↔ id ∈ s.ids := by
  simp [findWidget, ids, List.find?_isSome]

/-- A call's first locked section: it may take rows and widgets away and puts none in. -/
structure Begins (fold : String → String) (s s' : OverlayStore) (call : AssetCall) : Prop where
  frame : s' = { s with calls := s.calls ++ [call], widgets := s'.widgets, issued := call.pending ++ s.issued }
  ids : s'.ids.Sublist s.ids
  rows : ∀ w' ∈ s'.widgets, ∃ w ∈ s.widgets, w.id = w'.id ∧ ∀ a ∈ w'.assets, a ∈ w.assets
  fresh : call.pending.Nodup ∧ ∀ id ∈ call.pending, id ∉ s.issued
  targets : ∀ id ∈ call.targets, id ∈ s.ids
  dropped : ∀ id, call = .dropping id → id ∉ s'.ids
  own : ∀ h ∈ call.holds fold, s.files.read (h.folder, h.name) = some h.bytes

section

variable (sound : s.Sound fold)
include sound

theorem Sound.begin (call : AssetCall) (begins : Begins fold s s' call) : s'.Sound fold := by
  obtain ⟨frame, ids, rows, ⟨nodup, fresh⟩, targets, dropped, own⟩ := begins
  have calls : s'.calls = s.calls ++ [call] := by rw [frame]
  have files : s'.files = s.files := by rw [frame]
  have issued : s'.issued = call.pending ++ s.issued := by rw [frame]
  have pending : s'.pending = s.pending ++ call.pending := by
    rw [OverlayStore.pending, calls, List.flatMap_append, List.flatMap_singleton, OverlayStore.pending]
  refine ⟨?_, ?_, ?_, ?_, ?_, ?_⟩
  · rw [pending, ← List.append_assoc, List.nodup_append]
    refine ⟨sound.distinct.sublist (ids.append_right _), nodup, ?_⟩
    rintro id old _ new rfl
    exact fresh id new (sound.known id ((ids.append_right _).mem old))
  · intro id member
    rw [issued]
    rw [pending, ← List.append_assoc] at member
    rcases List.mem_append.mp member with old | new
    · exact List.mem_append_right _ (sound.known id ((ids.append_right _).mem old))
    · exact List.mem_append_left _ new
  · intro other member id target
    have known : id ∈ s.issued ∧ id ∉ s.pending := by
      rw [calls] at member
      rcases List.mem_append.mp member with old | new
      · exact sound.apart other old id target
      · rw [List.mem_singleton.mp new] at target
        have stored := targets id target
        exact ⟨sound.known id (List.mem_append_left _ stored), fun copy => sound.not_stored_of_pending copy stored⟩
    rw [issued, pending]
    refine ⟨List.mem_append_right _ known.1, fun later => ?_⟩
    exact (List.mem_append.mp later).elim known.2 fun new => fresh id new known.1
  · intro id member
    rw [calls] at member
    rcases List.mem_append.mp member with old | new
    · exact fun stored => sound.dropped id old (ids.mem stored)
    · exact dropped id (List.mem_singleton.mp new).symm
  -- a row that stays was there before, with its file or the call that writes it
  · intro w' stored a row
    obtain ⟨w, old, same, within⟩ := rows w' stored
    rw [files, calls, ← same]
    refine (sound.rows w old a (within a row)).imp_right ?_
    rintro ⟨other, member, rewriting⟩
    exact ⟨other, List.mem_append_left _ member, rewriting⟩
  · intro other member stored h held
    rw [files]
    rw [calls] at member
    rcases List.mem_append.mp member with old | new
    · exact sound.held other old (fun id target => ids.mem (stored id target)) h held
    -- what the new call relies on it has just found
    · rw [List.mem_singleton.mp new] at held
      exact own h held

theorem Sound.addAsset {asset : Asset} (found : (s.findWidget id).isSome) :
    Sound fold { s with calls := s.calls ++ [.adding id asset .checked] } := by
  apply sound.begin (.adding id asset .checked)
  exact {
    frame := rfl
    ids := List.Sublist.refl _
    rows := fun w stored => ⟨w, stored, rfl, fun _ row => row⟩
    fresh := by
      refine ⟨List.nodup_nil, fun _ new => ?_⟩
      cases new
    targets := by
      intro id' target
      rw [List.mem_singleton.mp target]
      exact isSome_findWidget.mp found
    dropped := fun _ same => by cases same
    own := fun h held => by cases held }

theorem Sound.removeAsset {file : String} (found : (s.findWidget id).isSome) :
    Sound fold { s with
      widgets := modifyWidget (fun w => { w with assets := w.assets.filter (·.file ≠ file) }) id s.widgets
      calls := s.calls ++ [.removing id file] } := by
  have distinct := (List.nodup_append.mp sound.distinct).1
  apply sound.begin (.removing id file)
  exact {
    frame := rfl
    ids := by
      simp only [ids]
      rw [map_id_modifyWidget]
      exact fun _ => rfl
    rows := by
      intro w stored
      rcases mem_modifyWidget distinct stored with ⟨old, _⟩ | ⟨old, inside, named, rfl⟩
      · exact ⟨w, old, rfl, fun _ row => row⟩
      · exact ⟨old, inside, rfl, fun a row => (List.mem_filter.mp row).1⟩
    fresh := by
      refine ⟨List.nodup_nil, fun _ new => ?_⟩
      cases new
    targets := by
      intro id' target
      rw [List.mem_singleton.mp target]
      exact isSome_findWidget.mp found
    dropped := fun _ same => by cases same
    own := fun h held => by cases held }

theorem Sound.delete (found : (s.findWidget id).isSome) :
    Sound fold { s with widgets := s.widgets.filter (·.id ≠ id), calls := s.calls ++ [.dropping id] } := by
  apply sound.begin (.dropping id)
  exact {
    frame := rfl
    ids := List.filter_sublist.map _
    rows := fun w stored => ⟨w, (List.mem_filter.mp stored).1, rfl, fun _ row => row⟩
    fresh := by
      refine ⟨List.nodup_nil, fun _ new => ?_⟩
      cases new
    targets := by
      intro id' target
      rw [List.mem_singleton.mp target]
      exact isSome_findWidget.mp found
    dropped := by
      intro id' same
      cases same
      intro stored
      obtain ⟨w, kept, named⟩ := List.mem_map.mp stored
      exact of_decide_eq_true (List.mem_filter.mp kept).2 named
    own := fun h held => by cases held }

theorem Sound.duplicate {copyId name : String} {source : Widget} (found : s.findWidget id = some source)
    (fresh : copyId ∉ s.issued) (settled : ∀ a ∈ source.assets, ∀ call ∈ s.calls, ¬ call.Rewrites id a.file) :
    Sound fold { s with
      calls := s.calls ++ [.copying id { source with id := copyId, name := name } none]
      issued := copyId :: s.issued } := by
  obtain ⟨stored, named⟩ := mem_ids_of_findWidget found
  apply sound.begin (.copying id { source with id := copyId, name := name } none)
  exact {
    frame := rfl
    ids := List.Sublist.refl _
    rows := fun w stored => ⟨w, stored, rfl, fun _ row => row⟩
    fresh := by
      refine ⟨List.nodup_singleton _, fun id' new => ?_⟩
      rw [List.mem_singleton.mp new]
      exact fresh
    targets := by
      intro id' target
      rw [List.mem_singleton.mp target, ← named]
      exact List.mem_map_of_mem stored
    dropped := fun _ same => by cases same
    own := by
      intro h held
      obtain ⟨a, row, rfl⟩ := List.mem_map.mp held
      rw [← named]
      -- no call rewrites a file of the source, so all of them are there
      refine (sound.rows source stored a row).resolve_right ?_
      rintro ⟨call, member, rewriting⟩
      rw [named] at rewriting
      exact settled a row call member rewriting }

end

/-! ### A call registers and returns -/

theorem returned_perm (there : s.calls[k]? = some call) : (s.calls.set k .returned).Perm (.returned :: s.calls.eraseIdx k) :=
  List.set_perm_cons_eraseIdx (List.getElem?_eq_some_iff.mp there).1 _

theorem pending_returned (there : s.calls[k]? = some call) :
    s.pending.Perm (call.pending ++ (s.calls.set k .returned).flatMap AssetCall.pending) := by
  have before := (calls_perm there).flatMap_right AssetCall.pending
  have after := (returned_perm there).flatMap_right AssetCall.pending
  rw [List.flatMap_cons] at before after
  exact before.trans (after.symm.append_left call.pending)

/-- The row of the file holds the asset's bytes, and the other rows are as they were. -/
theorem mem_registerRow {asset a : Asset} {assets : List Asset} (member : a ∈ registerRow asset assets) :
    a.file = asset.file ∧ a.bytes = asset.bytes ∨ a ∈ assets ∧ a.file ≠ asset.file := by
  simp only [registerRow] at member
  split at member
  · obtain ⟨old, row, rfl⟩ := List.mem_map.mp member
    split
    next same => exact .inl ⟨same, rfl⟩
    next other => exact .inr ⟨row, other⟩
  next none =>
    rcases List.mem_append.mp member with row | new
    · refine .inr ⟨row, fun same => none ?_⟩
      exact List.any_eq_true.mpr ⟨a, row, by simp [same]⟩
    · rw [List.mem_singleton.mp new]
      exact .inl ⟨rfl, rfl⟩

theorem Sound.registerAsset {asset : Asset} (sound : s.Sound fold) (there : s.calls[k]? = some (.adding id asset .replaced))
    (found : (s.findWidget id).isSome) :
    Sound fold { s.setCall k .returned with
      widgets := modifyWidget (fun w => { w with assets := registerRow asset w.assets, rev := w.rev + 1 }) id s.widgets } := by
  have distinct := (List.nodup_append.mp sound.distinct).1
  have stored := isSome_findWidget.mp found
  -- the call holds the file it has put in place
  have written : s.files.read (id, fold asset.file) = some asset.bytes := by
    refine sound.held _ (List.mem_of_getElem? there) (fun id' target => ?_) ⟨id, fold asset.file, asset.bytes⟩ List.mem_cons_self
    rw [List.mem_singleton.mp target]
    exact stored
  have before := calls_perm there
  have after := returned_perm there
  have pending : ((s.calls.set k .returned).flatMap AssetCall.pending).Perm s.pending := (pending_returned there).symm
  have ids' : (modifyWidget (fun w => { w with assets := registerRow asset w.assets, rev := w.rev + 1 }) id s.widgets).map
      Widget.id = s.ids := by
    rw [map_id_modifyWidget, ids]
    exact fun _ => rfl
  have old : ∀ other ∈ s.calls.set k .returned, other = .returned ∨ other ∈ s.calls := by
    intro other member
    refine (List.mem_cons.mp (after.mem_iff.mp member)).imp_right fun rest => ?_
    exact before.mem_iff.mpr (List.mem_cons_of_mem _ rest)
  -- a row another call rewrites is not the one registered here
  have rest : ∀ w ∈ s.widgets, ∀ a ∈ w.assets, ¬ (id = w.id ∧ asset.file = a.file) →
      s.files.read (w.id, fold a.file) = some a.bytes ∨ ∃ other ∈ s.calls.set k .returned, other.Rewrites w.id a.file := by
    intro w inside a row apart
    refine (sound.rows w inside a row).imp_right ?_
    rintro ⟨other, member, rewriting⟩
    rcases List.mem_cons.mp (before.mem_iff.mp member) with rfl | later
    · exact absurd rewriting apart
    · exact ⟨other, after.mem_iff.mpr (List.mem_cons_of_mem _ later), rewriting⟩
  refine ⟨?_, ?_, ?_, ?_, ?_, ?_⟩
  · simp only [ids, ids']
    exact ((pending.append_left s.ids).nodup_iff).mpr sound.distinct
  · intro i member
    simp only [ids, ids'] at member
    exact sound.known i ((pending.append_left s.ids).mem_iff.mp member)
  · intro other member i target
    rcases old other member with rfl | inside
    · cases target
    · obtain ⟨known, apart⟩ := sound.apart other inside i target
      exact ⟨known, fun later => apart (pending.mem_iff.mp later)⟩
  · intro i member
    simp only [ids, ids']
    exact sound.dropped i ((old _ member).resolve_left (by simp))
  · intro w member a row
    rcases mem_modifyWidget distinct member with ⟨inside, other⟩ | ⟨w', inside, named, rfl⟩
    · exact rest w inside a row fun same => other same.1.symm
    · rcases mem_registerRow row with ⟨file, bytes⟩ | ⟨row, apart⟩
      · refine .inl ?_
        rw [file, bytes, named]
        exact written
      · exact rest w' inside a row fun same => apart same.2.symm
  · intro other member targeted h held
    simp only [ids, ids'] at targeted
    rcases old other member with rfl | inside
    · cases held
    · exact sound.held other inside targeted h held

theorem Sound.registerCopy {copy : Widget} (sound : s.Sound fold) (there : s.calls[k]? = some (.copying id copy (some [])))
    (found : (s.findWidget id).isSome) : Sound fold { s.setCall k .returned with widgets := s.widgets ++ [copy] } := by
  have stored := isSome_findWidget.mp found
  have before := calls_perm there
  have after := returned_perm there
  have pending : s.pending.Perm (copy.id :: (s.calls.set k .returned).flatMap AssetCall.pending) := pending_returned there
  have ids' : (s.widgets ++ [copy]).map Widget.id = s.ids ++ [copy.id] := List.map_append
  have own : copy.id ∈ s.pending := pending.mem_iff.mpr List.mem_cons_self
  -- the copy's id goes from the pending ones to the stored ones
  have moved : (s.ids ++ [copy.id] ++ (s.calls.set k .returned).flatMap AssetCall.pending).Perm (s.ids ++ s.pending) := by
    rw [List.append_assoc]
    exact pending.symm.append_left _
  have old : ∀ other ∈ s.calls.set k .returned, other = .returned ∨ other ∈ s.calls.eraseIdx k := fun other member =>
    List.mem_cons.mp (after.mem_iff.mp member)
  have inside : ∀ other ∈ s.calls.eraseIdx k, other ∈ s.calls := fun other => List.mem_of_mem_eraseIdx
  refine ⟨?_, ?_, ?_, ?_, ?_, ?_⟩
  · simp only [ids, ids']
    exact moved.nodup_iff.mpr sound.distinct
  · intro i member
    simp only [ids, ids'] at member
    exact sound.known i (moved.mem_iff.mp member)
  · intro other member i target
    rcases old other member with rfl | rest
    · cases target
    · obtain ⟨known, apart⟩ := sound.apart other (inside other rest) i target
      exact ⟨known, fun later => apart (pending.mem_iff.mpr (List.mem_cons_of_mem _ later))⟩
  · intro i member later
    simp only [ids, ids'] at later
    have dropping := inside _ ((old _ member).resolve_left (by simp))
    rcases List.mem_append.mp later with old | new
    · exact sound.dropped i dropping old
    -- no call drops the folder of a copy that is pending
    · rw [List.mem_singleton.mp new] at dropping
      exact (sound.apart _ dropping copy.id List.mem_cons_self).2 own
  · intro w member a row
    rcases List.mem_append.mp member with known | new
    · refine (sound.rows w known a row).imp_right ?_
      rintro ⟨other, there', rewriting⟩
      rcases List.mem_cons.mp (before.mem_iff.mp there') with rfl | rest
      · cases rewriting
      · exact ⟨other, after.mem_iff.mpr (List.mem_cons_of_mem _ rest), rewriting⟩
    · -- the listing is empty, so every row's file is in the copy's folder
      rw [List.mem_singleton.mp new] at row ⊢
      refine .inl (sound.held _ (List.mem_of_getElem? there) (fun i target => ?_) ⟨copy.id, fold a.file, a.bytes⟩ ?_)
      · rw [List.mem_singleton.mp target]
        exact stored
      · exact List.mem_map.mpr ⟨a, row, by simp⟩
  · intro other member targeted h held
    rcases old other member with rfl | rest
    · cases held
    · refine sound.held other (inside other rest) (fun i target => ?_) h held
      have later := targeted i target
      simp only [ids, ids'] at later
      rcases List.mem_append.mp later with known | new
      · exact known
      · rw [List.mem_singleton.mp new] at target
        exact absurd own (sound.apart other (inside other rest) copy.id target).2

/-! ### Every step -/

theorem Sound.callStep {i : AssetStep} (sound : s.Sound fold) (there : s.calls[k]? = some call)
    (free : (∃ j, i = .writeTemp j ∨ i = .replaceFile j ∨ i = .deleteFile j) →
      ∀ d ∈ call.disturbs fold, d.folder ∈ s.ids → s.Free fold k d)
    (step : s.callStep fold k call i = some s') : s'.Sound fold := by
  cases i <;> simp only [OverlayStore.callStep, reduceCtorEq] at step <;> (repeat' split at step) <;> cases step
  next => exact sound.writeTemp there (free ⟨_, .inl rfl⟩ _ List.mem_cons_self)
  next temp =>
    have free := free ⟨_, .inr (.inl rfl)⟩
    exact sound.replaceFile there temp (free _ List.mem_cons_self) (free _ (List.mem_cons_of_mem _ List.mem_cons_self))
  -- the temp file is gone: the call fails
  next => exact sound.setCall there rfl rfl (by simp [AssetCall.targets]) (by simp) (by simp [AssetCall.Rewrites])
  next found => exact sound.registerAsset there found
  next id _ gone =>
    -- the widget was deleted meanwhile: its folder goes too
    have unstored : id ∉ s.ids := fun stored => gone (isSome_findWidget.mpr stored)
    refine sound.setCall there rfl rfl (fun _ target => .inl target) ?_ ?_
    · rintro _ same
      cases same
      exact unstored
    · rintro _ file stored ⟨rfl, _⟩
      exact unstored stored
  next => exact sound.deleteFile there (free ⟨_, .inr (.inr rfl)⟩ _ List.mem_cons_self)
  next => exact sound.listDir there
  next source => exact sound.copyFile there source
  next => exact sound.dropCopy there
  next found => exact sound.registerCopy there found
  next => exact sound.dropCopy there
  next => exact sound.removeDir there

theorem Sound.step {i : AssetStep} (sound : s.Sound fold) (undisturbed : s.Undisturbed fold i)
    (step : s.step fold i = some s') : s'.Sound fold := by
  cases i with
  | addAsset id key kind bytes =>
    simp only [OverlayStore.step] at step
    split at step
    · exact Option.some.inj step ▸ sound
    · split at step <;> cases step
      next found => exact sound.addAsset found
      next => exact sound
  | removeAsset id file =>
    simp only [OverlayStore.step] at step
    (repeat' split at step) <;> cases step
    next => exact sound
    next => exact sound
    next target found _ => exact sound.removeAsset (by rw [found, Option.isSome_some])
    next => exact sound
  | duplicate id copyId =>
    simp only [OverlayStore.step] at step
    (repeat' split at step) <;> cases step
    next => exact sound
    next found fresh => exact sound.duplicate found fresh (undisturbed _ found)
  | delete id =>
    simp only [OverlayStore.step] at step
    split at step <;> cases step
    next found => exact sound.delete found
    next => exact sound
  | writeTemp k | replaceFile k | deleteFile k =>
    obtain ⟨call, there, step⟩ := Option.bind_eq_some_iff.mp step
    exact sound.callStep there (fun _ => undisturbed call there) step
  | registerAsset k | listDir k | copyFile k | registerCopy k | removeDir k =>
    obtain ⟨call, there, step⟩ := Option.bind_eq_some_iff.mp step
    exact sound.callStep there (by simp) step

/-- A store at rest, as the application starts: every id was given out once, and every row
has its file. -/
structure Rests (fold : String → String) (s : OverlayStore) : Prop where
  quiet : s.calls = []
  distinct : s.ids.Nodup
  known : ∀ id ∈ s.ids, id ∈ s.issued
  filed : s.Filed fold

theorem Rests.sound (rests : s.Rests fold) : s.Sound fold := by
  obtain ⟨quiet, distinct, known, filed⟩ := rests
  have none : s.pending = [] := by rw [pending, quiet, List.flatMap_nil]
  refine ⟨?_, ?_, ?_, ?_, fun w stored a row => .inl (filed w stored a row), ?_⟩
  · rw [none, List.append_nil]
    exact distinct
  · rw [none, List.append_nil]
    exact known
  · intro call member
    rw [quiet] at member
    cases member
  · intro id member
    rw [quiet] at member
    cases member
  · intro call member
    rw [quiet] at member
    cases member

theorem Sound.filed (sound : s.Sound fold) (quiet : s.Quiet) : s.Filed fold := by
  intro w stored a row
  refine (sound.rows w stored a row).resolve_right ?_
  rintro ⟨call, member, rewriting⟩
  rw [quiet call member] at rewriting
  cases rewriting

/-- In every run whose file steps leave alone what others rely on, every row has its file
whenever no call is in progress. -/
theorem every_asset_filed {start u : OverlayStore} {ms : List (Moment OverlayStore AssetStep)} (rests : start.Rests fold)
    (run : Run (fun s i t => s.step fold i = some t) start ms u)
    (undisturbed : ∀ m ∈ ms, m.before.Undisturbed fold m.input) :
    (u.Quiet → u.Filed fold) ∧ ∀ m ∈ ms, m.after.Quiet → m.after.Filed fold := by
  obtain ⟨last, each⟩ := run.invariant (P := Sound fold) (Q := fun m => m.before.Undisturbed fold m.input)
    (fun m ok step sound => sound.step ok step) undisturbed rests.sound
  exact ⟨last.filed, fun m member => (each m member).2.filed⟩

/-- A file system that tells every two names apart. -/
def exactNames (name : String) : String :=
  name

/-- One widget with one asset. -/
def oneAsset : OverlayStore where
  widgets := [{ id := "w", name := "alerts", assets := [{ key := "a.png", kind := "image", file := "a.png", bytes := [1] }] }]
  files := [(("w", "a.png"), [1])]
  issued := ["w"]

theorem rests_oneAsset : oneAsset.Rests exactNames :=
  ⟨rfl, by decide, by decide, by decide⟩

/-- A second asset is added while the widget is duplicated; then an asset is removed and the
widget deleted. The copy keeps its file. -/
theorem every_asset_filed_of_copy : ∃ (ms : List (Moment OverlayStore AssetStep)) (u : OverlayStore),
    Run (fun s i t => s.step exactNames i = some t) oneAsset ms u ∧ (∀ m ∈ ms, m.before.Undisturbed exactNames m.input) ∧ u.ids = ["c"] ∧
    u.Quiet ∧ u.Filed exactNames := by
  obtain ⟨ms, u, run, shown⟩ := exists_run_of_follow (OverlayStore.step exactNames) oneAsset
    [.addAsset "w" "b.png" "image" [2], .writeTemp 0, .replaceFile 0, .duplicate "w" "c", .registerAsset 0, .listDir 1,
      .copyFile 1, .copyFile 1, .registerCopy 1, .removeAsset "w" "a.png", .deleteFile 2, .delete "w", .removeDir 3]
    (fun ms u => ms.all (fun m => m.before.Undisturbed exactNames m.input) &&
      (u.ids = ["c"] && u.Quiet)) (by decide +kernel)
  rw [Bool.and_eq_true, Bool.and_eq_true, List.all_eq_true] at shown
  obtain ⟨undisturbed, ids, calls⟩ := shown
  have free : ∀ m ∈ ms, m.before.Undisturbed exactNames m.input := fun m member => of_decide_eq_true (undisturbed m member)
  have quiet : u.Quiet := of_decide_eq_true calls
  exact ⟨ms, u, run, free, of_decide_eq_true ids, quiet, (every_asset_filed rests_oneAsset run free).1 quiet⟩

/-- `RemoveAsset` takes the row out, `AddAsset` puts a new file and its row in, and then
`RemoveAsset` deletes the file. -/
theorem asset_lost_to_late_delete :
    ¬ ∀ (start : OverlayStore) (ms : List (Moment OverlayStore AssetStep)) (u : OverlayStore),
      start.Rests exactNames → Run (fun s i t => s.step exactNames i = some t) start ms u → u.Quiet → u.Filed exactNames := by
  intro claimed
  obtain ⟨ms, u, run, shown⟩ := exists_run_of_follow (OverlayStore.step exactNames) oneAsset
    [.removeAsset "w" "a.png", .addAsset "w" "a.png" "image" [2], .writeTemp 1, .replaceFile 1, .registerAsset 1, .deleteFile 0]
    (fun _ u => u.Quiet && !decide (u.Filed exactNames)) (by decide +kernel)
  rw [Bool.and_eq_true, Bool.not_eq_true'] at shown
  exact of_decide_eq_false shown.2 (claimed oneAsset ms u rests_oneAsset run (of_decide_eq_true shown.1))

end OverlayStore

end Braidcast.Overlay
