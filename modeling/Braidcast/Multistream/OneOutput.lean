import Braidcast.Multistream.Engine

/-!
# One live output for each binding and each profile

Only the UI thread adds entries to the live list, and what it finds out about the list before
it adds one still holds when it does: the output threads meanwhile make no entry active that
was dead, since the output of a dead entry has ended.
-/
namespace Braidcast.Multistream

open Lib

namespace MultistreamEngine

variable {s t u : MultistreamEngine} {b : OutputBinding} {output : Nat} {bindingUuid : String}

/-- The profiles of the entries in an active state. -/
def activeProfiles (live : List LiveOutput) : List String :=
  ((live.filter (·.state.isActiveState)).map (·.profileUuid)).filter (· ≠ "")

/-- No two entries are of one binding. -/
def OnePerBinding (s : MultistreamEngine) : Prop :=
  (s.live.map (·.bindingUuid)).Nodup

/-- No two entries in an active state have one profile. -/
def OnePerProfile (s : MultistreamEngine) : Prop :=
  (activeProfiles s.live).Nodup

/-- What the UI thread has found out for its next section. -/
def Ready (s : MultistreamEngine) : UiCall → Prop
  | .checkProfile b => b.uuid ∉ s.live.map (·.bindingUuid)
  | .prepare b => b.uuid ∉ s.live.map (·.bindingUuid) ∧ b.profileUuid ∉ activeProfiles s.live
  | .push entry output =>
    (entry.bindingUuid ∉ s.live.map (·.bindingUuid) ∧ entry.profileUuid ∉ activeProfiles s.live) ∧
      entry.state = .connecting ∧ output < s.outputs.length
  | .starting output => output < s.outputs.length
  | .refused output _ => s.outputs[output]? = some .ended
  | .fail .. | .stop _ | .stopAll => True

structure Sound (s : MultistreamEngine) : Prop where
  oneBinding : s.OnePerBinding
  oneProfile : s.OnePerProfile
  dead : ∀ lo ∈ s.live, lo.state.isActiveState = false → ∀ output, lo.output = some output → s.outputs[output]? = some .ended
  ready : ∀ call, s.call = some call → s.Ready call

/-! ### The live list -/

variable {live : List LiveOutput}

theorem mem_activeProfiles {profileUuid : String} :
    profileUuid ∈ activeProfiles live ↔
      profileUuid ≠ "" ∧ ∃ lo ∈ live, lo.state.isActiveState = true ∧ lo.profileUuid = profileUuid := by
  simp only [activeProfiles, List.mem_filter, List.mem_map, decide_eq_true_eq]
  constructor
  · rintro ⟨⟨lo, ⟨member, active⟩, same⟩, named⟩
    exact ⟨named, lo, member, active, same⟩
  · rintro ⟨named, lo, member, active, same⟩
    exact ⟨⟨lo, ⟨member, active⟩, same⟩, named⟩

theorem activeProfiles_sublist {live live' : List LiveOutput} (sub : live'.Sublist live) :
    (activeProfiles live').Sublist (activeProfiles live) :=
  ((sub.filter _).map _).filter _

theorem activeProfiles_concat_dead {lo : LiveOutput} (dead : lo.state.isActiveState = false) :
    activeProfiles (live ++ [lo]) = activeProfiles live := by
  have none : [lo].filter (·.state.isActiveState) = [] := by simp [dead]
  rw [activeProfiles, List.filter_append, none, List.append_nil, activeProfiles]

theorem nodup_activeProfiles_concat {lo : LiveOutput} (nodup : (activeProfiles live).Nodup)
    (new : lo.profileUuid ∉ activeProfiles live) : (activeProfiles (live ++ [lo])).Nodup := by
  -- a dead entry counts for no profile
  by_cases active : lo.state.isActiveState = true
  · have one : [lo].filter (·.state.isActiveState) = [lo] := by simp [active]
    rw [activeProfiles, List.filter_append, one, List.map_append, List.map_singleton, List.filter_append, List.nodup_append]
    refine ⟨nodup, List.Nodup.sublist List.filter_sublist (by simp), ?_⟩
    rintro a old c last rfl
    rw [List.mem_singleton.mp (List.mem_of_mem_filter last)] at old
    exact new old
  · rw [activeProfiles_concat_dead (Bool.eq_false_iff.mpr active)]
    exact nodup

theorem not_mem_of_findLive (missing : s.findLive bindingUuid = none) : bindingUuid ∉ s.live.map (·.bindingUuid) := by
  rw [findLive, List.find?_eq_none] at missing
  intro member
  obtain ⟨lo, listed, same⟩ := List.mem_map.mp member
  exact missing lo listed (decide_eq_true same)

theorem takeLive_sublist : (s.takeLive bindingUuid).Sublist s.live :=
  List.eraseP_sublist

/-! ### What a change to the state keeps -/

section

variable (sound : s.Sound)
include sound

/-- The list, the outputs and the call are what soundness is about. -/
theorem Sound.of_eq (live : t.live = s.live) (outputs : t.outputs = s.outputs) (call : t.call = s.call) : t.Sound := by
  obtain ⟨oneBinding, oneProfile, dead, ready⟩ := sound
  refine ⟨?_, ?_, ?_, ?_⟩
  · rw [OnePerBinding, live]
    exact oneBinding
  · rw [OnePerProfile, live]
    exact oneProfile
  · rw [live, outputs]
    exact dead
  · intro c there
    have before := ready c (call ▸ there)
    -- what was found out is about the same list and the same outputs
    cases c <;> simp only [Ready, live, outputs] at before ⊢ <;> exact before

theorem Sound.goOn (call : UiCall) (ready : s.Ready call) : Sound { s with call := some call } := by
  refine ⟨sound.oneBinding, sound.oneProfile, sound.dead, ?_⟩
  intro c there
  obtain rfl := Option.some.inj there
  cases call <;> exact ready

theorem Sound.finish : Sound { s with call := none } := by
  refine ⟨sound.oneBinding, sound.oneProfile, sound.dead, ?_⟩
  intro c there
  cases there

/-- Entries are taken out. -/
theorem Sound.subLive (sub : live.Sublist s.live) : Sound { s with live, call := none } := by
  refine ⟨sound.oneBinding.sublist (sub.map _), sound.oneProfile.sublist (activeProfiles_sublist sub), ?_, ?_⟩
  · exact fun lo member => sound.dead lo (sub.mem member)
  · intro c there
    cases there

/-- An output has ended. -/
theorem Sound.ended (output : Nat) : Sound { s with outputs := s.outputs.set output .ended } := by
  -- an output that has ended stays so
  have still : ∀ i : Nat, s.outputs[i]? = some ObsOutput.ended → (s.outputs.set output .ended)[i]? = some ObsOutput.ended := by
    intro i before
    by_cases here : output = i
    · subst here
      exact List.getElem?_set_self (List.getElem?_eq_some_iff.mp before).1
    · rw [List.getElem?_set_ne here]
      exact before
  refine ⟨sound.oneBinding, sound.oneProfile, ?_, ?_⟩
  · exact fun lo member dead i its => still i (sound.dead lo member dead i its)
  · intro c there
    have before := sound.ready c there
    cases c with
    | push entry i => exact ⟨before.1, before.2.1, by rw [List.length_set]; exact before.2.2⟩
    | starting i =>
      rw [Ready, List.length_set]
      exact before
    | refused i reason => exact still i before
    | checkProfile | prepare | fail | stop | stopAll => exact before

/-- An entry is changed where it stands: it is made active only if it was, and dead only if its
output has ended. -/
theorem Sound.modifyOutput {f : LiveOutput → LiveOutput} (binding : ∀ lo, (f lo).bindingUuid = lo.bindingUuid)
    (profile : ∀ lo, (f lo).profileUuid = lo.profileUuid) (own : ∀ lo, (f lo).output = lo.output)
    (back : ∀ lo ∈ s.live, lo.output = some output → (f lo).state.isActiveState = true → lo.state.isActiveState = true)
    (ended : (∀ lo, (f lo).state.isActiveState = true) ∨ s.outputs[output]? = some .ended) : (s.modifyOutput output f).Sound := by
  have bindings : (s.modifyOutput output f).live.map (·.bindingUuid) = s.live.map (·.bindingUuid) := map_modifyFirst binding s.live
  -- no entry becomes active that was dead, so no profile is added
  have profiles : (activeProfiles (s.modifyOutput output f).live).Sublist (activeProfiles s.live) :=
    (modifyFirst_filter_sublist profile fun lo member its => back lo member (of_decide_eq_true its)).filter _
  refine ⟨?_, sound.oneProfile.sublist profiles, ?_, ?_⟩
  · rw [OnePerBinding, bindings]
    exact sound.oneBinding
  · intro lo member dead i its
    -- the entry changed is of the output that has ended
    rcases mem_modifyFirst member with old | ⟨before, _, matched, rfl⟩
    · exact sound.dead lo old dead i its
    · rcases ended with active | ended
      · rw [active] at dead
        cases dead
      · rw [own, of_decide_eq_true matched] at its
        exact Option.some.inj its ▸ ended
  · intro c there
    have before := sound.ready c there
    cases c with
    | checkProfile b =>
      rw [Ready, bindings]
      exact before
    | prepare b =>
      rw [Ready, bindings]
      exact ⟨before.1, fun member => before.2 (profiles.mem member)⟩
    | push entry i =>
      rw [Ready, bindings]
      exact ⟨⟨before.1.1, fun member => before.1.2 (profiles.mem member)⟩, before.2⟩
    | starting | refused | fail | stop | stopAll => exact before

/-! ### The UI thread's sections -/

theorem Sound.startBinding (absent : bindingUuid ∉ s.live.map (·.bindingUuid)) :
    (s.startBinding bindingUuid).Sound := by
  simp only [MultistreamEngine.startBinding]
  split
  · exact sound.of_eq rfl rfl rfl
  next b found =>
    obtain rfl : b.uuid = bindingUuid := by simpa using List.find?_some found
    split
    · exact sound.goOn (.fail b _) trivial
    · exact sound.goOn (.checkProfile b) absent

theorem Sound.startOutput (idle : s.call = none) (bindingUuid : String) : (s.startOutput bindingUuid).Sound := by
  simp only [MultistreamEngine.startOutput]
  split
  next missing => exact sound.startBinding (not_mem_of_findLive missing)
  next existing found =>
    split
    · exact sound.of_eq rfl rfl rfl
    -- the binding's dead entry is taken out first
    · have reaped : Sound { s with live := s.takeLive bindingUuid } :=
        (sound.subLive takeLive_sublist).of_eq rfl rfl idle
      exact reaped.startBinding (not_mem_map_eraseP sound.oneBinding)

theorem Sound.checkProfile (ready : s.Ready (.checkProfile b)) : (s.checkProfile b).Sound := by
  simp only [MultistreamEngine.checkProfile]
  split
  · exact sound.goOn (.fail b _) trivial
  next free =>
    apply sound.goOn (.prepare b)
    refine ⟨ready, ?_⟩
    intro member
    obtain ⟨named, lo, listed, active, same⟩ := mem_activeProfiles.mp member
    apply free
    -- the entry is not the binding's own, as that has been reaped
    have other : lo.bindingUuid ≠ b.uuid := fun own => ready (List.mem_map.mpr ⟨lo, listed, own⟩)
    rw [profileLiveElsewhere, if_neg named, List.any_eq_true]
    refine ⟨lo, listed, ?_⟩
    simp [active, bindingMatchesProfile, other, same]

theorem Sound.fail (b : OutputBinding) (reason : String) : (s.fail b reason).Sound := by
  have sub : (s.takeLive b.uuid).Sublist s.live := takeLive_sublist
  refine ⟨?_, ?_, ?_, ?_⟩
  · exact nodup_map_concat (sound.oneBinding.sublist (sub.map _)) (not_mem_map_eraseP sound.oneBinding)
  · rw [OnePerProfile, MultistreamEngine.fail, activeProfiles_concat_dead rfl]
    exact sound.oneProfile.sublist (activeProfiles_sublist sub)
  · intro lo member dead output its
    rcases List.mem_append.mp member with old | new
    · exact sound.dead lo (sub.mem old) dead output its
    · rw [List.mem_singleton.mp new] at its
      cases its
  · intro c there
    cases there

theorem Sound.prepare (ready : s.Ready (.prepare b)) (obs : ObsAnswers) : (s.prepare b obs).Sound := by
  simp only [MultistreamEngine.prepare]
  split
  next reason _ =>
    have failing : Sound { s with call := some (.fail b reason) } := sound.goOn (.fail b reason) trivial
    exact failing.of_eq rfl rfl rfl
  · refine ⟨sound.oneBinding, sound.oneProfile, ?_, ?_⟩
    -- a new output leaves those that have ended where they are
    · intro lo member dead output its
      have ended := sound.dead lo member dead output its
      rw [List.getElem?_append_left (List.getElem?_eq_some_iff.mp ended).1]
      exact ended
    · intro c there
      obtain rfl := Option.some.inj there
      refine ⟨ready, rfl, ?_⟩
      rw [List.length_append, List.length_singleton]
      exact Nat.lt_succ_self _

theorem Sound.push {entry : LiveOutput} (ready : s.Ready (.push entry output)) :
    Sound { s with live := s.live ++ [entry], call := some (.starting output) } := by
  obtain ⟨⟨binding, profile⟩, connecting, bound⟩ := ready
  refine ⟨nodup_map_concat sound.oneBinding binding, nodup_activeProfiles_concat sound.oneProfile profile, ?_, ?_⟩
  · intro lo member dead i its
    rcases List.mem_append.mp member with old | new
    · exact sound.dead lo old dead i its
    · rw [List.mem_singleton.mp new, connecting] at dead
      cases dead
  · intro c there
    obtain rfl := Option.some.inj there
    exact bound

theorem Sound.returned (ready : s.Ready (.starting output)) (refusal : Option String) :
    (s.returned output refusal).Sound := by
  cases refusal with
  | none => exact sound.finish.of_eq rfl rfl rfl
  -- `obs_output_start` refused: the output has ended and its entry goes to error next
  | some lastError => exact (sound.ended output).goOn (.refused output _) (List.getElem?_set_self ready)

theorem Sound.refused {reason : String} (ready : s.Ready (.refused output reason)) : (s.refused output reason).Sound := by
  -- the entry dies, and its output has ended
  have marked : (s.modifyOutput output fun lo => { lo with state := .error, lastError := reason }).Sound := by
    apply sound.modifyOutput
    · exact fun _ => rfl
    · exact fun _ => rfl
    · exact fun _ => rfl
    · intro _ _ _ active
      cases active
    · exact .inr ready
  exact marked.finish.of_eq rfl rfl rfl

theorem Sound.resume {call : UiCall} (there : s.call = some call) (step : s.resume call = some t) : t.Sound := by
  have ready := sound.ready call there
  cases call <;> cases step
  case checkProfile => exact sound.checkProfile ready
  case fail b reason => exact sound.fail b reason
  case push => exact sound.push ready
  case refused => exact sound.refused ready
  case stop => exact sound.subLive takeLive_sublist
  case stopAll => exact (sound.subLive (List.nil_sublist _)).of_eq rfl rfl rfl

/-! ### The output threads' signals -/

theorem Sound.noteWentLive (output : Nat) : (s.noteWentLive output).Sound := by
  simp only [MultistreamEngine.noteWentLive]
  split
  · exact sound.of_eq rfl rfl rfl
  · exact sound

/-- An output that has not ended has no dead entry, so its signals revive none. -/
theorem Sound.revive (sends : s.outputs[output]? = some .created) {f : LiveOutput → LiveOutput}
    (binding : ∀ lo, (f lo).bindingUuid = lo.bindingUuid) (profile : ∀ lo, (f lo).profileUuid = lo.profileUuid)
    (own : ∀ lo, (f lo).output = lo.output) (active : ∀ lo, (f lo).state.isActiveState = true) : (s.modifyOutput output f).Sound := by
  apply sound.modifyOutput binding profile own _ (.inl active)
  intro lo member its _
  by_contra dead
  have ended := sound.dead lo member (Bool.eq_false_iff.mpr dead) output its
  rw [sends] at ended
  cases ended

end

theorem noteWentLive_outputs {i : Nat} : (s.noteWentLive output).outputs[i]? = s.outputs[i]? := by
  simp only [MultistreamEngine.noteWentLive]
  split <;> rfl

/-- A stop makes the entry dead, and the output has ended. -/
theorem Sound.onOutputStop (sound : s.Sound) (there : s.outputs[output]?.isSome) (code : Int) (lastError : String) :
    (onOutputStop { s with outputs := s.outputs.set output .ended } output code lastError).Sound := by
  obtain ⟨_, found⟩ := Option.isSome_iff_exists.mp there
  have bound : output < s.outputs.length := (List.getElem?_eq_some_iff.mp found).1
  -- whatever the code, the entry is left in a dead state
  apply (sound.ended output).modifyOutput _ _ _ _ (.inr (List.getElem?_set_self bound))
  · intro lo
    split <;> rfl
  · intro lo
    split <;> rfl
  · intro lo
    split <;> rfl
  · intro lo _ _ active
    split at active <;> cases active

theorem Sound.signal (sound : s.Sound) {signal : Signal} (step : s.signal output signal = some t) : t.Sound := by
  have live (sends : s.outputs[output]? = some .created) {f : LiveOutput → LiveOutput} := (sound.noteWentLive output).revive
    (noteWentLive_outputs.trans sends) (f := f)
  simp only [MultistreamEngine.signal] at step
  split at step <;> cases step
  next sends => exact live sends (fun _ => rfl) (fun _ => rfl) (fun _ => rfl) (fun _ => rfl)
  next sends => exact sound.revive sends (fun _ => rfl) (fun _ => rfl) (fun _ => rfl) (fun _ => rfl)
  next sends => exact live sends (fun _ => rfl) (fun _ => rfl) (fun _ => rfl) (fun _ => rfl)
  next code lastError there => exact sound.onOutputStop (by rw [there, Option.isSome_some]) code lastError

/-! ### Steps and runs -/

theorem call_of_atRest (rest : s.atRest = true) : s.call = none := by
  rw [atRest, Bool.and_eq_true] at rest
  exact of_decide_eq_true rest.1

theorem Sound.step {i : EngineStep} (sound : s.Sound) (step : s.step i = some t) : t.Sound := by
  cases i <;> simp only [MultistreamEngine.step] at step
  case resume =>
    obtain ⟨call, there, step⟩ := Option.bind_eq_some_iff.mp step
    exact sound.resume there step
  case signal output signal => exact sound.signal step
  all_goals (split at step <;> cases step)
  next rest => exact sound.startOutput (call_of_atRest rest) _
  next =>
    rw [MultistreamEngine.stopOutput]
    split
    · exact sound
    · exact sound.goOn (.stop _) trivial
  next => exact sound.of_eq rfl rfl rfl
  next => exact sound.goOn .stopAll trivial
  next => exact sound.of_eq rfl rfl rfl
  next => exact sound.of_eq rfl rfl rfl
  next rest idle _ =>
    have begun : Sound { s with pending := rest } := sound.of_eq rfl rfl rfl
    exact begun.startOutput idle _
  next there => exact sound.prepare (sound.ready _ there) _
  next there => exact sound.returned (sound.ready _ there) _

/-- The engine as it is made. -/
def engine (bindings : List OutputBinding) (profiles : List StreamProfile) : MultistreamEngine where
  bindings := bindings
  profiles := profiles

theorem sound_engine (bindings : List OutputBinding) (profiles : List StreamProfile) : (engine bindings profiles).Sound := by
  refine ⟨List.nodup_nil, List.nodup_nil, ?_, ?_⟩
  · intro lo member
    cases member
  · intro call there
    cases there

/-- In every run, with the signals wherever they fall, the live list never has two entries of
one binding nor two active ones of one profile. -/
theorem one_live_output {bindings : List OutputBinding} {profiles : List StreamProfile} {ms : List (Moment MultistreamEngine EngineStep)}
    (run : Run (fun s i t => s.step i = some t) (engine bindings profiles) ms u) :
    (u.OnePerBinding ∧ u.OnePerProfile) ∧ ∀ m ∈ ms, m.before.OnePerBinding ∧ m.before.OnePerProfile := by
  obtain ⟨last, each⟩ := run.invariant (P := Sound) (Q := fun _ => True) (fun _ _ step sound => sound.step step)
    (fun _ _ => trivial) (sound_engine bindings profiles)
  refine ⟨⟨last.oneBinding, last.oneProfile⟩, ?_⟩
  intro m member
  have before := (each m member).1
  exact ⟨before.oneBinding, before.oneProfile⟩

def twoOfOneProfile : MultistreamEngine :=
  engine [⟨"a", "p", "c", true⟩, ⟨"b", "p", "c", true⟩] [{ uuid := "p", key := "k", server := "auto" }]

/-- Two bindings share a profile: the second is refused while the first is live, and goes out
when the first has dropped. -/
theorem one_live_output_over_retry : ∃ (ms : List (Moment MultistreamEngine EngineStep)) (u : MultistreamEngine),
    Run (fun s i t => s.step i = some t) twoOfOneProfile ms u ∧
      u.live.map (fun lo => (lo.bindingUuid, lo.state)) = [("b", .connecting), ("a", .error)] ∧
      (u.OnePerBinding ∧ u.OnePerProfile) ∧ ∀ m ∈ ms, m.before.OnePerBinding ∧ m.before.OnePerProfile := by
  obtain ⟨ms, u, run, shown⟩ := exists_run_of_follow MultistreamEngine.step twoOfOneProfile
    [.startAllEnabled, .next, .resume, .prepared {}, .resume, .signal 0 .start, .returned none, .next, .resume, .resume,
      .signal 0 (.reconnect "dropped"), .signal 0 (.stop (-1) "gone"), .startOutput "b", .resume, .prepared {}, .resume,
      .returned none, .stopOutput "a", .resume, .startOutput "a", .resume, .resume]
    (fun _ u => u.live.map (fun lo => (lo.bindingUuid, lo.state)) = [("b", .connecting), ("a", .error)]) (by decide)
  exact ⟨ms, u, run, of_decide_eq_true shown, one_live_output run⟩

end MultistreamEngine

end Braidcast.Multistream
