import Braidcast.OAuth.Metadata

/-!
# Confirming what a platform holds

`StreamProvider::prepareDestination`: the metadata is applied, and what the platform reports of it is
read once, again where it differs, and once more after a corrective push. A provider's hooks answer as
they like, also by what they were asked before.
-/
namespace Braidcast.OAuth

open Lib

inductive AppliedBy where
  | create
  | edit

structure AppliedState where
  fields : Json := .obj []
  unconfirmed : String := ""

/-- What a platform was asked, with its answer to a read. -/
inductive Call where
  | apply (fields : Json) (creating : Bool)
  | read (source : AppliedBy) (answer : Except String AppliedState)
  | push (fields : Json)

/-- The hooks of a provider, for one destination. -/
structure StreamProvider where
  displayName : String
  capabilityJson : Json
  divergenceRemedy : String → String
  hasActiveBroadcast : Bool
  /-- The error of the apply, where it fails. -/
  applyMetadata : Option String
  readAppliedMetadata : List Call → AppliedBy → Except String AppliedState

structure DestinationReadback where
  divergences : List MetadataDivergence := []
  unconfirmed : String := ""

/-- What `prepareDestination` returns and leaves behind. -/
structure Prepared where
  ok : Bool
  err : String := ""
  readback : DestinationReadback
  calls : List Call

namespace StreamProvider

variable (p : StreamProvider)

/-- `confirmDestination`, with the calls made so far. -/
def confirmDestination (requested : Json) (source : AppliedBy) (calls : List Call) (readback : DestinationReadback) :
    Bool × List Call × DestinationReadback :=
  let answer := p.readAppliedMetadata calls source
  let calls := calls ++ [.read source answer]
  match answer with
  | .error readErr =>
    let why := if readErr = "" then p.displayName ++ " did not report what it applied" else readErr
    (false, calls, { readback with unconfirmed := why })
  | .ok actual =>
    let fresh := (diffAppliedMetadata p.capabilityJson requested actual.fields).map fun entry =>
      { entry with remedy := p.divergenceRemedy entry.field }
    -- a field that this read did not state stands as it stood
    let prior := readback.divergences.filter fun entry => !states actual.fields entry.field
    (true, calls, ⟨fresh ++ prior, actual.unconfirmed⟩)

/-- `SafetyDivergences`. -/
def safetyDivergences (divergences : List MetadataDivergence) : List MetadataDivergence :=
  divergences.filter MetadataDivergence.safety

/-- What is asked for. A bag that is no object asks for nothing. -/
def requestedOf (fields : Json) : Json :=
  match fields with
  | .obj entries => .obj entries
  | _ => .obj []

/-- `prepareDestination`. What the push returns is only logged. -/
def prepareDestination (fields : Json) : Prepared :=
  let requested := requestedOf fields
  let creating := !p.hasActiveBroadcast
  let calls := [Call.apply requested creating]
  match p.applyMetadata with
  | some err => ⟨false, err, {}, calls⟩
  | none =>
    let source := if creating then AppliedBy.create else .edit
    let (answered, calls, readback) := p.confirmDestination requested source calls {}
    if !answered || readback.divergences.isEmpty then ⟨true, "", readback, calls⟩
    else
      let (answered, calls, readback) := p.confirmDestination requested source calls readback
      if answered && readback.divergences.isEmpty then ⟨true, "", readback, calls⟩
      else if (safetyDivergences readback.divergences).isEmpty then ⟨true, "", readback, calls⟩
      else
        let (_, calls, readback) := p.confirmDestination requested .edit (calls ++ [.push requested]) readback
        ⟨true, "", readback, calls⟩

end StreamProvider

/-! ### What the answers say -/

/-- The bags that were read, in order. -/
def answers (calls : List Call) : List Json :=
  calls.filterMap fun
    | .read _ (.ok actual) => some actual.fields
    | _ => none

/-- The last answer that states a field. -/
def lastStating (bags : List Json) (key : String) : Option Json := (bags.filter (states · key)).getLast?

/-- What the platform states of a field is not what was asked for. -/
def Disagrees (capability requested : Json) (rule : FieldRule) (bag : Json) : Prop :=
  (readRequested capability requested rule).present = true ∧
    (readRequested capability requested rule).cmp ≠ (readActual bag rule).cmp

/-- The last word on a field is that it is not what was asked for. -/
def Outstanding (capability requested : Json) (calls : List Call) (rule : FieldRule) : Prop :=
  ∃ bag ∈ lastStating (answers calls) rule.key, Disagrees capability requested rule bag

/-- A readback holds the divergences that are outstanding, each with its rule's weight. -/
structure Faithful (capability requested : Json) (calls : List Call) (readback : DestinationReadback) : Prop where
  outstanding : ∀ rule ∈ kFieldRules,
    (∃ d ∈ readback.divergences, d.field = rule.key) ↔ Outstanding capability requested calls rule
  named : ∀ d ∈ readback.divergences, ∃ rule ∈ kFieldRules, d.field = rule.key ∧ d.safety = rule.safety

def isRead : Call → Bool
  | .read _ _ => true
  | _ => false

def isPush : Call → Bool
  | .push _ => true
  | _ => false

variable {capability requested : Json} {calls : List Call} {readback : DestinationReadback} {rule : FieldRule}
  {bag : Json} {p : StreamProvider}

theorem rule_eq_of_key {other : FieldRule} (member : rule ∈ kFieldRules) (there : other ∈ kFieldRules)
    (same : rule.key = other.key) : rule = other :=
  List.inj_on_of_nodup_map kFieldRules_nodup member there same

/-! ### One read -/

theorem divergenceAt_iff : (∃ d, divergenceAt capability requested bag rule = some d) ↔
    states bag rule.key = true ∧ Disagrees capability requested rule bag := by
  cases stated : states bag rule.key with
  | false => simp [divergenceAt, readActual, stated]
  | true => simp [divergenceAt, readActual, stated, Disagrees]

theorem divergenceAt_named {d : MetadataDivergence} (found : divergenceAt capability requested bag rule = some d) :
    d.field = rule.key ∧ d.safety = rule.safety := by
  unfold divergenceAt at found
  dsimp only at found
  split at found
  · cases found
    exact ⟨rfl, rfl⟩
  · cases found

/-- The comparison finds a field where the read states it otherwise than asked. -/
theorem mem_diff_iff (member : rule ∈ kFieldRules) :
    (∃ d ∈ diffAppliedMetadata capability requested bag, d.field = rule.key) ↔
      states bag rule.key = true ∧ Disagrees capability requested rule bag := by
  rw [← divergenceAt_iff]
  constructor
  · rintro ⟨d, there, named⟩
    obtain ⟨other, listed, found⟩ := List.mem_filterMap.mp there
    have same := rule_eq_of_key listed member ((divergenceAt_named found).1.symm.trans named)
    exact ⟨d, same ▸ found⟩
  · rintro ⟨d, found⟩
    exact ⟨d, List.mem_filterMap.mpr ⟨rule, member, found⟩, (divergenceAt_named found).1⟩

theorem diff_named {d : MetadataDivergence} (there : d ∈ diffAppliedMetadata capability requested bag) :
    ∃ rule ∈ kFieldRules, d.field = rule.key ∧ d.safety = rule.safety := by
  obtain ⟨rule, member, found⟩ := List.mem_filterMap.mp there
  exact ⟨rule, member, divergenceAt_named found⟩

theorem lastStating_concat (bags : List Json) (bag : Json) (key : String) :
    lastStating (bags ++ [bag]) key = if states bag key = true then some bag else lastStating bags key := by
  unfold lastStating
  rw [List.filter_append]
  by_cases stated : states bag key = true
  · simp [stated]
  · simp [stated]

theorem answers_concat_ok (calls : List Call) (source : AppliedBy) (actual : AppliedState) :
    answers (calls ++ [.read source (.ok actual)]) = answers calls ++ [actual.fields] := by
  simp [answers]

theorem answers_concat_error (calls : List Call) (source : AppliedBy) (err : String) :
    answers (calls ++ [.read source (.error err)]) = answers calls := by
  simp [answers]

/-- What is outstanding after one more answer: what it states otherwise, and what it is silent about. -/
theorem outstanding_concat (source : AppliedBy) {actual : AppliedState} :
    Outstanding capability requested (calls ++ [.read source (.ok actual)]) rule ↔
      (states actual.fields rule.key = true ∧ Disagrees capability requested rule actual.fields) ∨
        (states actual.fields rule.key = false ∧ Outstanding capability requested calls rule) := by
  unfold Outstanding
  rw [answers_concat_ok, lastStating_concat]
  cases stated : states actual.fields rule.key with
  | true => simp
  | false => simp

/-- A read, whatever it answers, leaves the readback faithful to all answers so far. -/
theorem Faithful.confirm (faithful : Faithful p.capabilityJson requested calls readback) (source : AppliedBy) :
    Faithful p.capabilityJson requested (p.confirmDestination requested source calls readback).2.1
      (p.confirmDestination requested source calls readback).2.2 := by
  unfold StreamProvider.confirmDestination
  dsimp only
  cases answered : p.readAppliedMetadata calls source with
  | error readErr =>
    refine ⟨fun rule member => ?_, faithful.named⟩
    unfold Outstanding
    rw [answers_concat_error]
    exact faithful.outstanding rule member
  | ok actual =>
    constructor
    case outstanding =>
      intro rule member
      rw [outstanding_concat, ← mem_diff_iff member, ← faithful.outstanding rule member]
      constructor
      · rintro ⟨d, there, named⟩
        rcases List.mem_append.mp there with fresh | prior
        · obtain ⟨entry, found, rfl⟩ := List.mem_map.mp fresh
          exact .inl ⟨entry, found, named⟩
        · obtain ⟨old, silent⟩ := List.mem_filter.mp prior
          rw [named] at silent
          exact .inr ⟨by simpa using silent, d, old, named⟩
      · rintro (⟨entry, found, named⟩ | ⟨silent, d, old, named⟩)
        · exact ⟨_, List.mem_append_left _ (List.mem_map.mpr ⟨entry, found, rfl⟩), named⟩
        · exact ⟨d, List.mem_append_right _ (List.mem_filter.mpr ⟨old, by rw [named, silent]; rfl⟩), named⟩
    case named =>
      intro d there
      rcases List.mem_append.mp there with fresh | prior
      · obtain ⟨entry, found, rfl⟩ := List.mem_map.mp fresh
        obtain ⟨rule, member, named⟩ := diff_named found
        exact ⟨rule, member, named⟩
      · exact faithful.named d (List.mem_filter.mp prior).1

/-! ### The ladder -/

theorem confirmDestination_calls (p : StreamProvider) (requested : Json) (source : AppliedBy) (calls : List Call)
    (readback : DestinationReadback) :
    (p.confirmDestination requested source calls readback).2.1 =
      calls ++ [.read source (p.readAppliedMetadata calls source)] := by
  unfold StreamProvider.confirmDestination
  dsimp only
  cases p.readAppliedMetadata calls source with
  | error readErr => rfl
  | ok actual => rfl

/-- Nothing has been read, and nothing is outstanding. -/
theorem Faithful.start (unread : answers calls = []) : Faithful capability requested calls {} where
  outstanding := by simp [Outstanding, unread, lastStating]
  named := by simp

/-- A safety divergence in the readback is one that is outstanding. -/
theorem Faithful.safety (faithful : Faithful capability requested calls readback)
    (some : (StreamProvider.safetyDivergences readback.divergences).isEmpty = false) :
    ∃ rule ∈ kFieldRules, rule.safety = true ∧ Outstanding capability requested calls rule := by
  obtain ⟨d, there⟩ := List.exists_mem_of_ne_nil _ (List.isEmpty_eq_false_iff.mp some)
  obtain ⟨listed, weighty⟩ := List.mem_filter.mp there
  obtain ⟨rule, member, named, safety⟩ := faithful.named d listed
  exact ⟨rule, member, safety.symm.trans weighty, (faithful.outstanding rule member).mp ⟨d, listed, named⟩⟩

/-- A push is at the only place where there is one. -/
theorem before_push {before after : List Call} (xs ys : List Call) {fields pushed : Json} (front : ∀ c ∈ xs, isPush c = false)
    (rest : ∀ c ∈ ys, isPush c = false) (same : xs ++ .push fields :: ys = before ++ .push pushed :: after) :
    before = xs := by
  induction xs generalizing before with
  | nil =>
    cases before with
    | nil => rfl
    | cons b before =>
      have late : Call.push pushed ∈ ys := by
        rw [(List.cons.inj same).2]
        exact List.mem_append_right _ List.mem_cons_self
      exact absurd (rest _ late) (by simp [isPush])
  | cons x xs ih =>
    cases before with
    | nil =>
      have head : x = .push pushed := (List.cons.inj same).1
      exact absurd (front x List.mem_cons_self) (by simp [head, isPush])
    | cons b before =>
      obtain ⟨head, tail⟩ := List.cons.inj same
      rw [ih (fun c member => front c (List.mem_cons_of_mem _ member)) tail, head]

/-- At most three reads and one push, and the push for what is outstanding of safety. -/
structure Bounded (capability requested : Json) (calls : List Call) : Prop where
  reads : calls.countP isRead ≤ 3
  pushes : calls.countP isPush ≤ 1
  push : ∀ before pushed after, calls = before ++ .push pushed :: after →
    ∃ rule ∈ kFieldRules, rule.safety = true ∧ Outstanding capability requested before rule

theorem Bounded.of_no_push (reads : calls.countP isRead ≤ 3) (none : ∀ c ∈ calls, isPush c = false) :
    Bounded capability requested calls where
  reads := reads
  pushes := by
    rw [List.countP_eq_zero.mpr fun c member => by simp [none c member]]
    exact Nat.zero_le _
  push := by
    rintro before pushed after rfl
    have there : Call.push pushed ∈ before ++ .push pushed :: after := List.mem_append_right _ List.mem_cons_self
    exact absurd (none _ there) (by simp [isPush])

/-- A read of the ladder: it is recorded, and the readback stays faithful. -/
theorem Faithful.confirmed (faithful : Faithful p.capabilityJson requested calls readback) (source : AppliedBy)
    {answered : Bool} {calls' : List Call} {readback' : DestinationReadback}
    (read : p.confirmDestination requested source calls readback = (answered, calls', readback')) :
    Faithful p.capabilityJson requested calls' readback' ∧ ∃ answer, calls' = calls ++ [.read source answer] := by
  have next := faithful.confirm source
  have recorded := confirmDestination_calls p requested source calls readback
  rw [read] at next recorded
  exact ⟨next, _, recorded⟩

/-- The push is no answer. -/
theorem Faithful.pushed (faithful : Faithful capability requested calls readback) (fields : Json) :
    Faithful capability requested (calls ++ [.push fields]) readback := by
  have unread : answers (calls ++ [.push fields]) = answers calls := by simp [answers]
  refine ⟨fun rule member => ?_, faithful.named⟩
  unfold Outstanding
  rw [unread]
  exact faithful.outstanding rule member

/-- The readback holds the divergences that the last answers leave, after at most three reads and one push. -/
theorem prepareDestination_faithful (p : StreamProvider) (fields : Json) :
    let r := p.prepareDestination fields
    Faithful p.capabilityJson (StreamProvider.requestedOf fields) r.calls r.readback ∧
      Bounded p.capabilityJson (StreamProvider.requestedOf fields) r.calls := by
  dsimp only
  unfold StreamProvider.prepareDestination
  dsimp only
  cases p.applyMetadata with
  | some err => exact ⟨.start rfl, .of_no_push (by simp [isRead]) (by simp [isPush])⟩
  | none =>
    dsimp only
    generalize (!p.hasActiveBroadcast) = creating
    generalize (if creating = true then AppliedBy.create else .edit) = source
    generalize StreamProvider.requestedOf fields = requested
    have start : Faithful p.capabilityJson requested [.apply requested creating] {} := .start rfl
    cases read₁ : p.confirmDestination requested source [.apply requested creating] {} with
    | mk answered rest =>
      obtain ⟨calls, readback⟩ := rest
      obtain ⟨first, answer₁, rfl⟩ := start.confirmed source read₁
      dsimp only
      split
      · exact ⟨first, .of_no_push (by simp [List.countP_cons, isRead]) (by simp [isPush])⟩
      cases read₂ : p.confirmDestination requested source ([.apply requested creating] ++ [.read source answer₁]) readback with
      | mk answered rest =>
        obtain ⟨calls, readback⟩ := rest
        obtain ⟨second, answer₂, rfl⟩ := first.confirmed source read₂
        dsimp only
        split
        · exact ⟨second, .of_no_push (by simp [List.countP_cons, isRead]) (by simp [isPush])⟩
        split
        · exact ⟨second, .of_no_push (by simp [List.countP_cons, isRead]) (by simp [isPush])⟩
        next some =>
          have before := second.safety (by simpa using some)
          cases read₃ : p.confirmDestination requested .edit _ readback with
          | mk answered rest =>
            obtain ⟨calls, readback⟩ := rest
            obtain ⟨third, answer₃, rfl⟩ := (second.pushed requested).confirmed .edit read₃
            refine ⟨third, ⟨by simp [List.countP_cons, isRead], by simp [List.countP_cons, isPush], ?_⟩⟩
            intro prior pushed after same
            simp only [List.cons_append, List.nil_append] at same before
            have reads := before_push [.apply requested creating, .read source answer₁, .read source answer₂]
              [.read .edit answer₃] (by simp [isPush]) (by simp [isPush]) same
            rw [reads]
            exact before

end Braidcast.OAuth
