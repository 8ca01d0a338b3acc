import Braidcast.Multistream.VideoGate

/-!
# Which sources are gated

After every call the gated sources are the living ones that the last pass found in the Main tree
of an idle canvas and in no other tree. A source that left the tree was gated by the pass before,
whose uuids are remembered.
-/
namespace Braidcast.Multistream.VideoGate

open Lib

section

variable {sources : Sources} {source other : Source} {set tree : SourceSet} {roots : List Root}

/-! ### The table of sources -/

theorem eq_of_object (here : source ∈ sources.list) (there : other ∈ sources.list) (same : source.object = other.object) :
    source = other :=
  List.inj_on_of_nodup_map sources.objects here there same

theorem eq_of_uuid (here : source ∈ sources.list) (there : other ∈ sources.list) (same : source.uuid = other.uuid) :
    source = other :=
  List.inj_on_of_nodup_map sources.uuids here there same

/-- What reaches a source by its uuid reaches its object. -/
theorem Holds.uuid_iff (holds : Holds sources set) (here : source ∈ sources.list) :
    source.uuid ∈ set.map Prod.fst ↔ source.object ∈ set.map Prod.snd := by
  constructor
  · intro listed
    obtain ⟨⟨uuid, object⟩, member, rfl⟩ := List.mem_map.mp listed
    obtain ⟨other, there, same⟩ := List.mem_map.mp (holds _ member)
    obtain ⟨uuids, rfl⟩ := Prod.mk.inj same
    rw [← eq_of_uuid there here uuids]
    exact List.mem_map_of_mem member
  · intro listed
    obtain ⟨⟨uuid, object⟩, member, rfl⟩ := List.mem_map.mp listed
    obtain ⟨other, there, same⟩ := List.mem_map.mp (holds _ member)
    obtain ⟨rfl, objects⟩ := Prod.mk.inj same
    rw [← eq_of_object there here objects]
    exact List.mem_map_of_mem member

theorem Holds.setFlags (holds : Holds sources set) (flag : Source → Bool) : Holds (sources.setFlags flag) set := by
  intro e member
  simpa [Sources.setFlags, Function.comp_def] using holds e member

/-! ### The two loops -/

/-- The loop over a tree sets the flag of every source in it. -/
theorem foldl_setVideoGated (g : String → Bool) (holds : Holds sources tree) :
    (tree.foldl (fun sources e => sources.setVideoGated e.2 (g e.1)) sources).list =
      sources.list.map fun source =>
        { source with videoGated := if source.object ∈ tree.map Prod.snd then g source.uuid else source.videoGated } := by
  induction tree generalizing sources with
  | nil => simp
  | cons e tree ih =>
    have rest : Holds sources tree := fun e member => holds e (List.mem_cons_of_mem _ member)
    have next := @ih (sources.setVideoGated e.2 (g e.1)) (rest.setFlags _)
    rw [List.foldl_cons, next]
    simp only [Sources.setVideoGated, Sources.setFlags, List.map_map]
    refine List.map_congr_left fun source here => ?_
    obtain ⟨other, there, same⟩ := List.mem_map.mp (holds e List.mem_cons_self)
    obtain ⟨uuids, objects⟩ := Prod.mk.inj same
    by_cases later : source.object ∈ tree.map Prod.snd
    · simp [later]
    · by_cases first : source.object = e.2
      · have mine : source.uuid = e.1 := eq_of_object here there (first.trans objects.symm) ▸ uuids
        simp [← first, later, mine]
      · simp [later, first]

/-- The loop over uuids clears the flag of every source that has one of them. -/
theorem ungate_list (uuids : List String) :
    (ungate sources uuids).list = sources.list.map fun source =>
      { source with videoGated := if source.uuid ∈ uuids then false else source.videoGated } := by
  induction uuids generalizing sources with
  | nil => simp [ungate]
  | cons uuid uuids ih =>
    rw [ungate, List.foldl_cons, ← ungate, ih]
    cases found : sources.byUuid uuid with
    | none =>
      -- no source has this uuid
      refine List.map_congr_left fun source here => ?_
      have other : source.uuid ≠ uuid := by simpa using List.find?_eq_none.mp found source here
      simp [other]
    | some there =>
      have member := List.mem_of_find?_eq_some found
      have its : there.uuid = uuid := by simpa using List.find?_some found
      simp only [Sources.setVideoGated, Sources.setFlags, List.map_map]
      refine List.map_congr_left fun source here => ?_
      by_cases same : source.uuid = uuid
      · have mine := eq_of_uuid here member (same.trans its.symm)
        simp [mine, its]
      · have differs : source.object ≠ there.object := fun objects => same (eq_of_object here member objects ▸ its)
        simp [same, differs]

theorem ungate_next (uuids : List String) : (ungate sources uuids).next = sources.next := by
  induction uuids generalizing sources with
  | nil => rfl
  | cons uuid uuids ih =>
    rw [ungate, List.foldl_cons, ← ungate, ih]
    cases sources.byUuid uuid <;> rfl

theorem foldl_setVideoGated_next (g : String → Bool) :
    (tree.foldl (fun sources e => sources.setVideoGated e.2 (g e.1)) sources).next = sources.next := by
  induction tree generalizing sources with
  | nil => rfl
  | cons e tree ih => exact ih

/-! ### What a pass decides -/

theorem mem_uuids_union {uuid : String} :
    uuid ∈ (union roots).map Prod.fst ↔ ∃ root ∈ roots, uuid ∈ root.sources.map Prod.fst := by
  refine foldl_rule (P := fun (done : List Root) (into : SourceSet) =>
    uuid ∈ into.map Prod.fst ↔ ∃ root ∈ done, uuid ∈ root.sources.map Prod.fst) (by simp) ?_ roots
  intro done root into before
  rw [mem_keys_emplaceAll, before]
  simp [or_and_right, exists_or]

theorem nodup_uuids_union : ((union roots).map Prod.fst).Nodup :=
  foldl_rule (P := fun (_ : List Root) (into : SourceSet) => (into.map Prod.fst).Nodup) (by simp)
    (fun _ _ _ nodup => nodup_keys_emplaceAll nodup) roots

section

variable (held : Held sources roots)
include held

theorem Held.holds_union : Holds sources (union roots) := by
  intro e member
  have from_ : ∃ root ∈ roots, e ∈ root.sources := by
    refine foldl_rule (P := fun (done : List Root) (into : SourceSet) => e ∈ into → ∃ root ∈ done, e ∈ root.sources)
      (by simp) ?_ roots member
    intro done root into before inserted
    rcases mem_of_mem_emplaceAll inserted with old | new
    · obtain ⟨earlier, there, reached⟩ := before old
      exact ⟨earlier, List.mem_append_left _ there, reached⟩
    · exact ⟨root, List.mem_append_right _ List.mem_cons_self, new⟩
  obtain ⟨root, there, reached⟩ := from_
  exact held root there e reached

theorem Held.below {root : Root} (there : root ∈ roots) {e : String × Nat} (reached : e ∈ root.sources) :
    e.2 < sources.next := by
  obtain ⟨source, member, same⟩ := List.mem_map.mp (held root there e reached)
  rw [← (Prod.mk.inj same).2]
  exact sources.below source member

theorem Held.filter (p : Root → Bool) : Held sources (roots.filter p) :=
  fun root there => held root (List.mem_of_mem_filter there)

/-- In the Main tree of the roots, and reached from no other root. -/
def OnlyMain (roots : List Root) (object : Nat) : Prop :=
  (∃ root ∈ roots, root.kind = .main ∧ object ∈ root.sources.map Prod.snd) ∧
    ∀ root ∈ roots, root.kind ≠ .main → object ∉ root.sources.map Prod.snd

theorem mem_mainTree_iff (here : source ∈ sources.list) :
    source.uuid ∈ (mainTree roots).map Prod.fst ↔
      ∃ root ∈ roots, root.kind = .main ∧ source.object ∈ root.sources.map Prod.snd := by
  rw [mainTree, mem_uuids_union]
  constructor
  · rintro ⟨root, member, reached⟩
    obtain ⟨there, main⟩ := List.mem_filter.mp member
    exact ⟨root, there, of_decide_eq_true main, ((held root there).uuid_iff here).mp reached⟩
  · rintro ⟨root, there, main, reached⟩
    exact ⟨root, List.mem_filter.mpr ⟨there, decide_eq_true main⟩, ((held root there).uuid_iff here).mpr reached⟩

theorem mem_wanted_iff (here : source ∈ sources.list) :
    source.uuid ∈ (wanted roots).map Prod.fst ↔
      ∃ root ∈ roots, root.kind ≠ .main ∧ source.object ∈ root.sources.map Prod.snd := by
  rw [wanted, mem_uuids_union]
  constructor
  · rintro ⟨root, member, reached⟩
    obtain ⟨there, other⟩ := List.mem_filter.mp member
    exact ⟨root, there, of_decide_eq_true other, ((held root there).uuid_iff here).mp reached⟩
  · rintro ⟨root, there, other, reached⟩
    exact ⟨root, List.mem_filter.mpr ⟨there, decide_eq_true other⟩, ((held root there).uuid_iff here).mpr reached⟩

/-- The uuids gated next are those of the sources only Main reaches, if it is idle. -/
theorem mem_nextGated_iff (here : source ∈ sources.list) (mainIdle : Bool) :
    source.uuid ∈ nextGated mainIdle roots ↔ mainIdle = true ∧ OnlyMain roots source.object := by
  rw [nextGated, List.mem_filter, mem_mainTree_iff held here, gate, Bool.and_eq_true, decide_eq_true_eq,
    mem_wanted_iff held here, OnlyMain]
  simp only [not_exists, not_and]
  exact and_left_comm

end

/-- What is in the tree gets the flag of this pass, and what was gated and left it is ungated. -/
theorem regate_list (s : State) (mainIdle : Bool) (held : Held s.sources roots) :
    (s.regate mainIdle roots).list = s.sources.list.map fun source => { source with
      videoGated := if source.uuid ∈ (mainTree roots).map Prod.fst then gate mainIdle roots source.uuid
        else if source.uuid ∈ s.gated then false else source.videoGated } := by
  have holds : Holds s.sources (mainTree roots) := (held.filter _).holds_union
  rw [State.regate, ungate_list, foldl_setVideoGated _ holds, List.map_map]
  refine List.map_congr_left fun source here => ?_
  rw [Function.comp_apply]
  simp only [← holds.uuid_iff here, List.mem_filter, decide_eq_true_eq]
  by_cases inTree : source.uuid ∈ (mainTree roots).map Prod.fst <;> simp [inTree]

end

/-! ### The remembered uuids -/

/-- Every gated source is remembered. -/
def Remembered (s : State) : Prop := ∀ source ∈ s.sources.list, source.videoGated = true → source.uuid ∈ s.gated

theorem ungateAll_list {s : State} (remembered : Remembered s) :
    ∀ source ∈ s.ungateAll.sources.list, source.videoGated = false := by
  intro source member
  rw [State.ungateAll, ungate_list] at member
  obtain ⟨old, there, rfl⟩ := List.mem_map.mp member
  by_cases listed : old.uuid ∈ s.gated
  · simp [listed]
  · simpa [listed] using fun gated => listed (remembered old there gated)

/-- After a pass the flags are those of the uuids gated next. -/
theorem regate_flag {s : State} {roots : List Root} (remembered : Remembered s) (held : Held s.sources roots) (mainIdle : Bool) :
    ∀ source ∈ (s.regate mainIdle roots).list,
      (source.videoGated = true ↔ source.uuid ∈ nextGated mainIdle roots) ∧
        (source.uuid ∈ nextGated mainIdle roots ↔ mainIdle = true ∧ OnlyMain roots source.object) := by
  intro source member
  rw [regate_list s mainIdle held] at member
  obtain ⟨old, there, rfl⟩ := List.mem_map.mp member
  refine ⟨?_, mem_nextGated_iff held there mainIdle⟩
  rw [nextGated, List.mem_filter]
  by_cases inTree : old.uuid ∈ (mainTree roots).map Prod.fst
  · simp only [inTree, if_true, true_and]
  · by_cases listed : old.uuid ∈ s.gated
    · simp only [inTree, listed, if_true, if_false, false_and, Bool.false_eq_true]
    · have clear : old.videoGated = false := by simpa using fun gated => listed (remembered old there gated)
      simp only [inTree, listed, if_false, false_and, clear, Bool.false_eq_true]

/-! ### The logged counts -/

/-- As many uuids are kept as are gated twice in a row, and no more than were gated. -/
theorem logged_nonneg {s : State} {next : List String} (distinct : next.Nodup) :
    ∀ line ∈ s.logged next, 0 ≤ line.kept ∧ 0 ≤ line.removed := by
  have parts : next.length = (next.filter fun uuid => uuid ∉ s.gated).length + (next.filter fun uuid => uuid ∈ s.gated).length := by
    have whole := List.length_eq_length_filter_add (l := next) fun uuid => decide (uuid ∉ s.gated)
    simpa using whole
  have again : (next.filter fun uuid => uuid ∈ s.gated).length ≤ s.gated.length := by
    refine (List.Nodup.subperm (distinct.filter _) fun uuid member => ?_).length_le
    exact of_decide_eq_true (List.mem_filter.mp member).2
  intro line member
  unfold State.logged at member
  dsimp only at member
  split at member
  · rw [List.mem_singleton.mp member]
    constructor <;> dsimp only <;> omega
  · cases member

/-! ### What a walk holds -/

section

variable {sources : Sources} {graph : Graph} {object : Nat} {out : SourceSet}

theorem addSource_holds (holds : Holds sources out) : Holds sources (addSource sources object out) := by
  unfold addSource
  split
  · exact holds
  next source found =>
  split
  · intro e member
    rcases mem_of_mem_emplace member with old | rfl
    · exact holds e old
    · have its : source.object = object := by simpa using List.find?_some found
      exact List.mem_map.mpr ⟨source, List.mem_of_find?_eq_some found, by rw [its]⟩
  · exact holds

theorem collectActiveTree_holds : Holds sources (collectActiveTree sources graph object []) :=
  foldl_rule (P := fun (_ : List Nat) (out : SourceSet) => Holds sources out) (addSource_holds (by simp [Holds]))
    (fun _ _ _ holds => addSource_holds holds) (graph.activeTree object)

end

theorem walkRoots_held (s : State) (graph : Graph) : Held s.sources (s.walkRoots graph) := by
  intro root member
  rcases List.mem_append.mp member with own | showing
  · rcases List.mem_append.mp own with main | canvas
    · obtain ⟨source, -, rfl⟩ := List.mem_map.mp main
      exact collectActiveTree_holds
    · obtain ⟨source, -, rfl⟩ := List.mem_map.mp canvas
      exact collectActiveTree_holds
  · obtain ⟨holder, -, walked⟩ := List.mem_filterMap.mp showing
    obtain ⟨source, -, rfl⟩ := Option.map_eq_some_iff.mp walked
    exact collectActiveTree_holds

/-! ### Every call -/

/-- The roots a call passes over, and whether Main is judged idle at it: nothing can be judged
idle while the gate is not armed. -/
def judged (gateEnabled : Bool) (s : State) : Input → Option (List Root × Bool)
  | .reconcileWith roots active => some (roots, s.armed gateEnabled && !active)
  | .reconcile graph active => some (s.walkRoots graph, s.armed gateEnabled && !active)
  | .incShowing source graph active =>
    let uuid := s.sourceUuid source
    if uuid = "" then none
    else some (({ s with showingRoots := s.holders uuid } : State).walkRoots graph, s.armed gateEnabled && !active)
  | .decShowing source graph active =>
    some (({ s with showingRoots := s.holdersLeft (s.sourceUuid source) } : State).walkRoots graph,
      s.armed gateEnabled && !active)
  | .shutdown => some ([], false)
  | _ => none

/-- What the last call of a run that passed over roots judged. -/
def lastPass (gateEnabled : Bool) (ms : List (Moment State Input)) : Option (List Root × Bool) :=
  (ms.filterMap fun m => judged gateEnabled m.before m.input).getLast?

structure Inv (s : State) (last : Option (List Root × Bool)) : Prop where
  exactly : ∀ source ∈ s.sources.list,
    source.videoGated = true ↔ ∃ roots, last = some (roots, true) ∧ OnlyMain roots source.object
  remembered : Remembered s
  earlier : ∀ roots mainIdle, last = some (roots, mainIdle) → ∀ root ∈ roots, ∀ e ∈ root.sources, e.2 < s.sources.next
  logged : ∀ line ∈ s.log, 0 ≤ line.kept ∧ 0 ≤ line.removed

namespace Inv

variable {s t : State} {last : Option (List Root × Bool)} {roots : List Root}

section

variable (inv : Inv s last)
include inv

/-- Without a pass, sources that were there keep their flags. -/
theorem same (list : t.sources.list ⊆ s.sources.list) (next : t.sources.next = s.sources.next)
    (gated : t.gated = s.gated) (log : t.log = s.log) : Inv t last where
  exactly source member := inv.exactly source (list member)
  remembered source member flag := gated ▸ inv.remembered source (list member) flag
  earlier := next ▸ inv.earlier
  logged := log ▸ inv.logged

/-- A new source was in no tree yet. -/
theorem create {uuid : String} (new : uuid ∉ s.sources.list.map (·.uuid)) :
    Inv { s with sources := s.sources.create uuid new } last := by
  refine ⟨fun source member => ?_, fun source member flag => ?_, fun roots mainIdle passed root there e reached => ?_, inv.logged⟩
  · rcases List.mem_append.mp member with old | created
    · exact inv.exactly source old
    · rw [List.mem_singleton.mp created]
      refine iff_of_false Bool.false_ne_true ?_
      rintro ⟨roots, passed, ⟨root, there, -, reached⟩, -⟩
      obtain ⟨e, inTree, object⟩ := List.mem_map.mp reached
      exact Nat.ne_of_lt (inv.earlier roots true passed root there e inTree) object
  · rcases List.mem_append.mp member with old | created
    · exact inv.remembered source old flag
    · rw [List.mem_singleton.mp created] at flag
      cases flag
  · exact Nat.lt_succ_of_lt (inv.earlier roots mainIdle passed root there e reached)

theorem ungateAll (held : Held s.sources roots) : Inv s.ungateAll (some (roots, false)) := by
  have clear := ungateAll_list inv.remembered
  refine ⟨fun source member => ?_, fun source member flag => ?_, fun _ _ passed root there e reached => ?_, inv.logged⟩
  · refine iff_of_false (by simp [clear source member]) ?_
    rintro ⟨_, passed, -⟩
    cases passed
  · rw [clear source member] at flag
    cases flag
  · cases passed
    rw [State.ungateAll, ungate_next]
    exact held.below there reached

theorem reconcileWith (held : Held s.sources roots) (gateEnabled active : Bool) :
    Inv (s.reconcileWith gateEnabled roots active) (some (roots, s.armed gateEnabled && !active)) := by
  unfold State.reconcileWith
  cases s.armed gateEnabled with
  | false => exact inv.ungateAll held
  | true =>
    have flags := regate_flag inv.remembered held (!active)
    refine ⟨fun source member => ?_, fun source member => (flags source member).1.mp, fun _ _ passed root there e reached => ?_, ?_⟩
    · rw [(flags source member).1, (flags source member).2]
      constructor
      · rintro ⟨idle, only⟩
        exact ⟨roots, by rw [idle]; rfl, only⟩
      · rintro ⟨_, passed, only⟩
        obtain ⟨rfl, idle⟩ := Prod.mk.inj (Option.some.inj passed)
        exact ⟨idle, only⟩
    · cases passed
      simp only [Bool.not_true, Bool.false_eq_true, if_false, State.regate, ungate_next, foldl_setVideoGated_next]
      exact held.below there reached
    · intro line member
      rcases List.mem_append.mp member with old | new
      · exact inv.logged line old
      · exact logged_nonneg (nodup_uuids_union.filter _) line new

theorem reconcile (graph : Graph) (gateEnabled active : Bool) :
    Inv (s.reconcile gateEnabled graph active) (some (s.walkRoots graph, s.armed gateEnabled && !active)) := by
  have whole : s.reconcile gateEnabled graph active = s.reconcileWith gateEnabled (s.walkRoots graph) active := by
    unfold State.reconcile State.reconcileWith
    split <;> rfl
  rw [whole]
  exact inv.reconcileWith (walkRoots_held s graph) gateEnabled active

theorem step {gateEnabled : Bool} {i : Input} (taken : Step gateEnabled s i t) :
    Inv t ((judged gateEnabled s i).or last) := by
  cases i with
  | create uuid =>
    obtain ⟨new, same⟩ := Option.dite_none_right_eq_some.mp taken
    cases same
    exact inv.create new
  | destroy object =>
    cases taken
    exact inv.same List.filter_sublist.subset rfl rfl rfl
  | setMainActivePredicate | setCanvasRootEnumerator | setMainCanvasUuid =>
    cases taken
    exact inv.same (List.Subset.refl _) rfl rfl rfl
  | reconcileWith roots active =>
    obtain ⟨held, same⟩ := Option.ite_none_right_eq_some.mp taken
    cases same
    exact inv.reconcileWith held gateEnabled active
  | reconcile graph active =>
    cases taken
    exact inv.reconcile graph gateEnabled active
  | incShowing source graph active =>
    cases taken
    unfold State.incShowing judged
    dsimp only
    split
    · exact inv
    · -- the holder is registered before the walk
      have registered : Inv ({ s with showingRoots := s.holders (s.sourceUuid source) } : State) last :=
        inv.same (List.Subset.refl _) rfl rfl rfl
      exact registered.reconcile graph gateEnabled active
  | decShowing source graph active =>
    cases taken
    have left : Inv ({ s with showingRoots := s.holdersLeft (s.sourceUuid source) } : State) last :=
      inv.same (List.Subset.refl _) rfl rfl rfl
    exact left.reconcile graph gateEnabled active
  | shutdown =>
    cases taken
    have clear : Inv s.ungateAll (some ([], false)) := inv.ungateAll fun _ absent => nomatch absent
    exact clear.same (List.Subset.refl _) rfl rfl rfl

theorem run {gateEnabled : Bool} {ms : List (Moment State Input)} (run : Run (Step gateEnabled) s ms t) :
    Inv t ((lastPass gateEnabled ms).or last) := by
  induction run generalizing last with
  | nil => exact inv
  | @cons s t u i ms step _ ih =>
    have later := ih (inv.step step)
    rw [← Option.or_assoc] at later
    unfold lastPass at later ⊢
    rw [List.filterMap_cons]
    cases passed : judged gateEnabled s i with
    | none =>
      rw [passed, Option.or_none] at later
      exact later
    | some pass =>
      rw [passed] at later
      dsimp only
      rw [List.getLast?_cons]
      cases last_ : (ms.filterMap fun m => judged gateEnabled m.before m.input).getLast? <;> rw [last_] at later <;> exact later

end

end Inv

theorem inv_initial : Inv initial none where
  exactly := fun _ absent => nomatch absent
  remembered := fun _ absent => nomatch absent
  earlier := fun _ _ absent => nomatch absent
  logged := fun _ absent => nomatch absent

/-- After every call, exactly the living sources that the last pass found in the Main tree of an
idle canvas and reached from no other root are gated; and no logged count underflows. -/
theorem gated_exactly {gateEnabled : Bool} {ms : List (Moment State Input)} {s : State}
    (run : Run (Step gateEnabled) initial ms s) :
    (∀ source ∈ s.sources.list,
        source.videoGated = true ↔ ∃ roots, lastPass gateEnabled ms = some (roots, true) ∧ OnlyMain roots source.object) ∧
      ∀ line ∈ s.log, 0 ≤ line.kept ∧ 0 ≤ line.removed := by
  have inv := inv_initial.run run
  rw [Option.or_none] at inv
  exact ⟨inv.exactly, inv.logged⟩

/-- A scene with two sources; one is destroyed, and a preview of the other is opened. -/
def previewed : List Input :=
  let graph : Graph := { mainSource := some 0, activeTree := fun object => if object = 0 then [1, 2] else [] }
  [.setMainActivePredicate true, .create "scene", .create "image", .create "camera", .reconcile graph false, .destroy 1,
    .incShowing (some 2) graph false]

theorem gated_exactly_previewed : ∃ (s : State) (ms : List (Moment State Input)),
    s.sources.list = [⟨0, "scene", true⟩, ⟨2, "camera", false⟩] ∧ s.log = [⟨3, 0, 0, 3⟩, ⟨0, 1, 2, 1⟩] ∧
      (∀ source ∈ s.sources.list,
        source.videoGated = true ↔ ∃ roots, lastPass true ms = some (roots, true) ∧ OnlyMain roots source.object) := by
  obtain ⟨ms, s, run, shown⟩ := exists_run_of_follow (step true) initial previewed
    (fun _ s => decide (s.sources.list = [⟨0, "scene", true⟩, ⟨2, "camera", false⟩] ∧ s.log = [⟨3, 0, 0, 3⟩, ⟨0, 1, 2, 1⟩]))
    (by decide)
  obtain ⟨sources, log⟩ := of_decide_eq_true shown
  exact ⟨s, ms, sources, log, (gated_exactly run).1⟩

end Braidcast.Multistream.VideoGate
