import Braidcast.Multistream.Targets

/-!
# When a reconcile settles every target once

A pass changes no claim, routes what it creates as the origin is routed, and run again changes
nothing. It gives each target one destination exactly where no target to be claimed is listed
twice, and creates one only where none is left exactly where a target without an id comes last.
-/
namespace Braidcast.Multistream.Targets

open Lib

/-- How many profiles claim the target `id`. -/
def claimants (s : Stores) (fieldKey id : String) : Nat :=
  ((s.profiles.map (·.uuid)).filter fun uuid => s.claimedTarget uuid fieldKey = id).length

namespace Settled

variable {draw : Nat → String} {s : Stores} {accountId originUuid fieldKey uuid id : String} {origin : Profile}
  {targets : List StreamTarget} {target : StreamTarget} {pass : Pass} {created : List Profile}

section

variable (settled : Settled draw s (survey s accountId origin fieldKey) targets pass created)
include settled

/-- Whoever was handed a target is a profile of the account. -/
theorem taker_profile (from_ : Origin s accountId originUuid origin)
    (member : (uuid, target) ∈ handed (survey s accountId origin fieldKey) created targets) :
    ∃ p ∈ pass.stores.profiles, OfAccount accountId originUuid p ∧ p.uuid = uuid := by
  rw [settled.profiles]
  rcases List.mem_append.mp ((takers_of_zip ..).subset (List.mem_map_of_mem (f := Prod.fst) member)) with unclaimed | new
  · obtain ⟨p, old, account, same⟩ := (mem_owned_iff from_).mp ((mem_unclaimed_iff from_).mp unclaimed).1
    exact ⟨p, List.mem_append_left _ old, account, same⟩
  · obtain ⟨p, made, same⟩ := List.mem_map.mp new
    exact ⟨p, List.mem_append_right _ made, .inr (settled.account p made), same⟩

/-- Who claims a target after the pass: who did before, and who was handed it. -/
theorem claims_iff (sound : Sound draw s) (from_ : Origin s accountId originUuid origin) (named : id ≠ "") (uuid : String) :
    (uuid ∈ pass.stores.profiles.map (·.uuid) ∧ pass.stores.claimedTarget uuid fieldKey = id) ↔
      (uuid ∈ s.profiles.map (·.uuid) ∧ s.claimedTarget uuid fieldKey = id) ∨
        ∃ target, (uuid, target) ∈ handed (survey s accountId origin fieldKey) created targets ∧ target.id = id := by
  rw [settled.profiles, List.map_append, List.mem_append]
  constructor
  · rintro ⟨listed, claims⟩
    by_cases taker : uuid ∈ (handed (survey s accountId origin fieldKey) created targets).map Prod.fst
    · obtain ⟨⟨_, target⟩, member, rfl⟩ := List.mem_map.mp taker
      exact .inr ⟨target, member, (settled.claimed_of_handed sound from_ member).symm.trans claims⟩
    · rcases listed with old | new
      · rw [Stores.claimedTarget, settled.streams_of_not_handed taker] at claims
        exact .inl ⟨old, claims⟩
      · exact absurd (settled.created_handed new) taker
  · rintro (⟨old, claims⟩ | ⟨target, member, rfl⟩)
    · have taker := settled.not_handed sound from_ old (claims ▸ named)
      rw [Stores.claimedTarget, settled.streams_of_not_handed taker]
      exact ⟨.inl old, claims⟩
    · obtain ⟨p, there, -, rfl⟩ := settled.taker_profile from_ member
      rw [← List.mem_append, ← List.map_append, ← settled.profiles]
      exact ⟨List.mem_map_of_mem there, settled.claimed_of_handed sound from_ member⟩

theorem profiles_nodup (sound : Sound draw s) : (pass.stores.profiles.map (·.uuid)).Nodup := by
  rw [settled.profiles, List.map_append, List.nodup_append]
  refine ⟨sound.profiles, settled.apart, ?_⟩
  rintro uuid old other new rfl
  exact settled.uuid_notMem sound new old

/-- A target gains as many claimants as it was handed out. -/
theorem claimants_eq (sound : Sound draw s) (from_ : Origin s accountId originUuid origin) (named : id ≠ "") :
    claimants pass.stores fieldKey id = claimants s fieldKey id +
      ((fresh (survey s accountId origin fieldKey) targets).filter fun target => target.id = id).length := by
  have parts : ((pass.stores.profiles.map (·.uuid)).filter fun uuid => pass.stores.claimedTarget uuid fieldKey = id).Perm
      (((s.profiles.map (·.uuid)).filter fun uuid => s.claimedTarget uuid fieldKey = id) ++
        ((handed (survey s accountId origin fieldKey) created targets).filter fun e => e.2.id = id).map Prod.fst) := by
    refine (List.perm_ext_iff_of_nodup ((settled.profiles_nodup sound).filter _) ?_).mpr fun uuid => ?_
    · refine List.nodup_append.mpr ⟨sound.profiles.filter _,
        (settled.handed_nodup sound from_).sublist (List.filter_sublist.map _), ?_⟩
      rintro uuid old other new rfl
      obtain ⟨old, claims⟩ := List.mem_filter.mp old
      have taker := settled.not_handed sound from_ old (of_decide_eq_true claims ▸ named)
      exact taker ((List.filter_sublist.map _).subset new)
    · simpa [List.mem_filter] using settled.claims_iff sound from_ named uuid
  have items : ((fresh (survey s accountId origin fieldKey) targets).filter fun target => target.id = id).length =
      ((handed (survey s accountId origin fieldKey) created targets).filter fun e => e.2.id = id).length := by
    rw [← settled.handed_targets, List.filter_map, List.length_map]
    rfl
  rw [items, claimants, parts.length_eq, List.length_append, List.length_map (f := Prod.fst)]
  rfl

end

theorem fresh_filter_length (known : Survey) (targets : List StreamTarget) (id : String) :
    ((fresh known targets).filter fun target => target.id = id).length =
      if id ∈ known.claimed then 0 else (targets.filter fun target => target.id = id).length := by
  rw [fresh, List.filter_filter]
  split
  · next claimed =>
    refine List.length_eq_zero_iff.mpr (List.filter_eq_nil_iff.mpr fun target _ => ?_)
    simpa using fun same : target.id = id => same ▸ claimed
  · next open_ =>
    congr 1
    refine List.filter_congr fun target _ => ?_
    by_cases same : target.id = id <;> simp [same, open_]

section

variable (settled : Settled draw s (survey s accountId origin fieldKey) targets pass created)
include settled

/-- A pass that stands past the profiles without a target left none of the account without one, if
all it handed out have ids. -/
theorem none_left_iff (sound : Sound draw s) (from_ : Origin s accountId originUuid origin)
    (all : (survey s accountId origin fieldKey).unclaimed.length ≤ (fresh (survey s accountId origin fieldKey) targets).length) :
    (∀ p ∈ pass.stores.profiles, OfAccount accountId originUuid p → pass.stores.claimedTarget p.uuid fieldKey ≠ "") ↔
      ∀ target ∈ fresh (survey s accountId origin fieldKey) targets, target.id ≠ "" := by
  have takers := settled.handed_takers all
  constructor
  · intro none_ target listed
    rw [← settled.handed_targets] at listed
    obtain ⟨⟨uuid, _⟩, member, rfl⟩ := List.mem_map.mp listed
    obtain ⟨p, there, account, rfl⟩ := settled.taker_profile from_ member
    rw [← settled.claimed_of_handed sound from_ member]
    exact none_ p there account
  · intro named p member account
    by_cases taker : p.uuid ∈ (handed (survey s accountId origin fieldKey) created targets).map Prod.fst
    · obtain ⟨⟨_, target⟩, handed_, same⟩ := List.mem_map.mp taker
      rw [← same, settled.claimed_of_handed sound from_ handed_]
      exact named target (settled.handed_targets ▸ List.mem_map_of_mem (f := Prod.snd) handed_)
    · rw [takers, List.mem_append, not_or, mem_unclaimed_iff from_, mem_owned_iff from_] at taker
      rw [settled.profiles, List.mem_append] at member
      have old : p ∈ s.profiles := member.resolve_right fun made => taker.2 (List.mem_map_of_mem made)
      have absent : p.uuid ∉ (handed (survey s accountId origin fieldKey) created targets).map Prod.fst := by
        rw [takers, List.mem_append, not_or, mem_unclaimed_iff from_, mem_owned_iff from_]
        exact taker
      rw [Stores.claimedTarget, settled.streams_of_not_handed absent]
      exact fun unclaimed => taker.1 ⟨⟨p, old, account, rfl⟩, unclaimed⟩

/-! ### The second pass -/

theorem origin_again (from_ : Origin s accountId originUuid origin) : Origin pass.stores accountId originUuid origin := by
  refine ⟨?_, from_.linked⟩
  have found := from_.found
  rw [Stores.find] at found
  rw [Stores.find, settled.profiles, List.find?_append, found, Option.some_or]

section

variable (sound : Sound draw s)
include sound

section

variable (from_ : Origin s accountId originUuid origin)
include from_

theorem owned_again :
    owned pass.stores accountId originUuid = owned s accountId originUuid ++ created.map (·.uuid) := by
  have all : (created.filter fun p => p.accountId = accountId && decide (p.uuid ≠ originUuid)) = created := by
    refine List.filter_eq_self.mpr fun p made => ?_
    have new := settled.uuid_notMem sound (List.mem_map_of_mem (f := (·.uuid)) made)
    have other : p.uuid ≠ originUuid := fun same =>
      new (same ▸ from_.uuid_eq ▸ List.mem_map_of_mem from_.member)
    have linked : p.accountId = accountId := settled.account p made
    simp [linked, other]
  rw [owned, settled.profiles, List.filter_append, all, List.map_append]
  rfl

/-- The profiles without a target of a second pass begin with those that were handed one without an id. -/
theorem unclaimed_again :
    ((handed (survey s accountId origin fieldKey) created targets).filter fun e => e.2.id = "").map Prod.fst <+:
      (survey pass.stores accountId origin fieldKey).unclaimed := by
  have still : (owned s accountId originUuid).filter (fun uuid => pass.stores.claimedTarget uuid fieldKey = "") =
      (survey s accountId origin fieldKey).unclaimed.filter fun uuid => pass.stores.claimedTarget uuid fieldKey = "" := by
    rw [survey, from_.uuid_eq, List.filter_filter]
    refine List.filter_congr fun uuid listed => ?_
    by_cases claims : s.claimedTarget uuid fieldKey = ""
    · simp [claims]
    · have absent := settled.not_handed sound from_ (owned_mem from_ listed) claims
      have same : pass.stores.claimedTarget uuid fieldKey = s.claimedTarget uuid fieldKey := by
        rw [Stores.claimedTarget, settled.streams_of_not_handed absent, Stores.claimedTarget]
      simp [claims, same]
  have first : ((handed (survey s accountId origin fieldKey) created targets).filter fun e => e.2.id = "").map Prod.fst =
      ((handed (survey s accountId origin fieldKey) created targets).map Prod.fst).filter fun uuid =>
        pass.stores.claimedTarget uuid fieldKey = "" := by
    rw [List.filter_map]
    refine congrArg _ (List.filter_congr fun e member => ?_)
    rw [Function.comp_apply, settled.claimed_of_handed sound from_ member]
  have whole : (survey pass.stores accountId origin fieldKey).unclaimed =
      ((survey s accountId origin fieldKey).unclaimed ++ created.map (·.uuid)).filter fun uuid =>
        pass.stores.claimedTarget uuid fieldKey = "" := by
    rw [List.filter_append, ← still, ← List.filter_append, ← settled.owned_again sound from_, survey, from_.uuid_eq]
  rw [whole, first]
  exact (takers_of_zip ..).filter _

/-- A second pass has to hand out the targets without an id alone. -/
theorem fresh_again :
    fresh (survey pass.stores accountId origin fieldKey) targets =
      ((handed (survey s accountId origin fieldKey) created targets).filter fun e => e.2.id = "").map Prod.snd := by
  have items : ((handed (survey s accountId origin fieldKey) created targets).filter fun e => e.2.id = "").map Prod.snd =
      (fresh (survey s accountId origin fieldKey) targets).filter fun target => target.id = "" := by
    rw [← settled.handed_targets, List.filter_map]
    rfl
  rw [items, fresh, fresh, List.filter_filter]
  refine List.filter_congr fun target listed => ?_
  by_cases named : target.id = ""
  · simp [survey, named]
  · have claimed : target.id ∈ (survey pass.stores accountId origin fieldKey).claimed := by
      rw [mem_claimed_iff (settled.origin_again from_) named]
      by_cases before : target.id ∈ (survey s accountId origin fieldKey).claimed
      · obtain ⟨p, old, account, claims⟩ := (mem_claimed_iff from_ named).mp before
        have absent := settled.not_handed sound from_ (List.mem_map_of_mem old) (claims.trans_ne named)
        refine ⟨p, settled.profiles ▸ List.mem_append_left _ old, account, ?_⟩
        rw [Stores.claimedTarget, settled.streams_of_not_handed absent]
        exact claims
      · have given : target ∈ (handed (survey s accountId origin fieldKey) created targets).map Prod.snd := by
          rw [settled.handed_targets]
          exact List.mem_filter.mpr ⟨listed, decide_eq_true before⟩
        obtain ⟨⟨uuid, _⟩, member, rfl⟩ := List.mem_map.mp given
        obtain ⟨p, there, account, rfl⟩ := settled.taker_profile from_ member
        exact ⟨p, there, account, settled.claimed_of_handed sound from_ member⟩
    simp [named, claimed]

theorem claimTarget_again (member : (uuid, target) ∈ handed (survey s accountId origin fieldKey) created targets) :
    pass.stores.claimTarget uuid fieldKey target = pass.stores := by
  have same := assign_again (f := fun target bag => some (claimBag fieldKey target bag)) (m := s.streams)
    (settled.handed_nodup sound from_) (fun b a => congrArg some (claimBag_twice b a)) member
  have bags : pass.stores.streams = assign (fun target bag => some (claimBag fieldKey target bag)) s.streams
      (handed (survey s accountId origin fieldKey) created targets) := settled.streams
  rw [← bags] at same
  rw [Stores.claimTarget, same]

/-- Run again with the same targets, the loop writes what is there. -/
theorem again :
    (targets.foldl (Targets.settle draw (survey pass.stores accountId origin fieldKey)) { stores := pass.stores }).stores =
      pass.stores := by
  have rule := foldl_rule (f := Targets.settle draw (survey pass.stores accountId origin fieldKey))
    (P := fun done second => done <+: targets →
      second.stores = pass.stores ∧ second.nextUnclaimed = (fresh (survey pass.stores accountId origin fieldKey) done).length)
    (b := { stores := pass.stores }) (fun _ => ⟨rfl, rfl⟩) ?_ targets
  · exact (rule (List.prefix_refl _)).1
  · intro done target second before within
    obtain ⟨stores, next⟩ := before ((List.prefix_append ..).trans within)
    unfold Targets.settle
    split
    · next claimed => exact ⟨stores, next.trans (by rw [fresh_concat_of_claimed _ claimed])⟩
    · next open_ =>
      -- the next target goes to the profile that has it
      have grown := fresh_concat_of_not_claimed done open_
      have part : fresh (survey pass.stores accountId origin fieldKey) (done ++ [target]) <+:
          fresh (survey pass.stores accountId origin fieldKey) targets := within.filter _
      have here : (fresh (survey pass.stores accountId origin fieldKey) targets)[second.nextUnclaimed]? = some target := by
        rw [List.prefix_iff_getElem?.mp part second.nextUnclaimed (by rw [grown, next]; simp)]
        simp [grown, next]
      rw [settled.fresh_again sound from_, List.getElem?_map] at here
      obtain ⟨⟨uuid, _⟩, there, rfl⟩ := Option.map_eq_some_iff.mp here
      obtain ⟨rest, unclaimed⟩ := settled.unclaimed_again sound from_
      have mapped : (((handed (survey s accountId origin fieldKey) created targets).filter fun e => e.2.id = "").map
          Prod.fst)[second.nextUnclaimed]? = some uuid := by
        rw [List.getElem?_map, there]
        rfl
      have taker : (survey pass.stores accountId origin fieldKey).unclaimed[second.nextUnclaimed]? = some uuid := by
        rw [← unclaimed, List.getElem?_append_left (List.getElem?_eq_some_iff.mp mapped).1]
        exact mapped
      rw [taker]
      refine ⟨?_, ?_⟩
      · dsimp only
        rw [stores]
        exact settled.claimTarget_again sound from_ (List.mem_of_mem_filter (List.mem_of_getElem? there))
      · rw [grown, List.length_append, List.length_singleton, ← next]

end

end

end

end Settled

/-! ### Whole passes -/

section

variable {draw : Nat → String} {s : Stores} {accountId originUuid : String} {origin : Profile} {list : TargetList}

/-- What a pass over `list` is to do. -/
structure Reconciled (draw : Nat → String) (s : Stores) (accountId originUuid : String) (list : TargetList) : Prop where
  /-- No existing claim is changed. -/
  keeps : ∀ p ∈ s.profiles, s.claimedTarget p.uuid list.fieldKey ≠ "" →
    (reconcile draw s accountId originUuid list).streams p.uuid = s.streams p.uuid
  /-- A listed target gains one claimant if no profile of the account claimed it, and otherwise none. -/
  claims : ∀ target ∈ list.targets, target.id ≠ "" →
    (¬(∃ p ∈ s.profiles, OfAccount accountId originUuid p ∧ s.claimedTarget p.uuid list.fieldKey = target.id) →
      claimants (reconcile draw s accountId originUuid list) list.fieldKey target.id =
        claimants s list.fieldKey target.id + 1) ∧
    ((∃ p ∈ s.profiles, OfAccount accountId originUuid p ∧ s.claimedTarget p.uuid list.fieldKey = target.id) →
      claimants (reconcile draw s accountId originUuid list) list.fieldKey target.id =
        claimants s list.fieldKey target.id)
  /-- The target at which a profile is created finds every profile of the account with a claim. -/
  creates : ∀ done target rest, list.targets = done ++ target :: rest →
    (reconcile draw s accountId originUuid ⟨list.fieldKey, done⟩).profiles.length <
        (reconcile draw s accountId originUuid ⟨list.fieldKey, done ++ [target]⟩).profiles.length →
      ∀ p ∈ (reconcile draw s accountId originUuid ⟨list.fieldKey, done⟩).profiles, OfAccount accountId originUuid p →
        (reconcile draw s accountId originUuid ⟨list.fieldKey, done⟩).claimedTarget p.uuid list.fieldKey ≠ ""
  /-- A created profile is routed as the origin is, to each of its canvases once. -/
  routes : ∀ p ∈ (reconcile draw s accountId originUuid list).profiles, p.uuid ∉ s.profiles.map (·.uuid) →
    (reconcile draw s accountId originUuid list).routes p.uuid = emplaceAll [] (s.routes originUuid) ∧
      (((s.routes originUuid).map Prod.fst).Nodup →
        (reconcile draw s accountId originUuid list).routes p.uuid = s.routes originUuid)
  /-- A second pass changes nothing. -/
  again : reconcile draw (reconcile draw s accountId originUuid list) accountId originUuid list =
    reconcile draw s accountId originUuid list

/-- The lists a pass settles: no target to be handed out is listed twice, and where profiles are
created only the last target handed out may be one without an id. -/
structure Clear (known : Survey) (targets : List StreamTarget) : Prop where
  once : ∀ target ∈ fresh known targets, target.id ≠ "" → (targets.filter fun other => other.id = target.id).length = 1
  named : known.unclaimed.length < (fresh known targets).length → ∀ target ∈ (fresh known targets).dropLast, target.id ≠ ""

/-- The loop over the targets `done` of a pass. -/
theorem exists_loop (makes : Makes draw) (sound : Sound draw s) (from_ : Origin s accountId originUuid origin)
    (fieldKey : String) (done : List StreamTarget) :
    ∃ pass created, Settled draw s (survey s accountId origin fieldKey) done pass created ∧
      pass.stores = reconcile draw s accountId originUuid ⟨fieldKey, done⟩ := by
  obtain ⟨created, settled⟩ := exists_settled makes sound (survey s accountId origin fieldKey) done
  exact ⟨_, created, settled, (from_.reconcile_eq ⟨fieldKey, done⟩).symm⟩

/-- A profile is created where the target is to be handed out and every profile without one got one. -/
theorem creates_iff (makes : Makes draw) (sound : Sound draw s) (from_ : Origin s accountId originUuid origin)
    (fieldKey : String) (done : List StreamTarget) (target : StreamTarget) :
    (reconcile draw s accountId originUuid ⟨fieldKey, done⟩).profiles.length <
        (reconcile draw s accountId originUuid ⟨fieldKey, done ++ [target]⟩).profiles.length ↔
      target.id ∉ (survey s accountId origin fieldKey).claimed ∧
        (survey s accountId origin fieldKey).unclaimed.length ≤ (fresh (survey s accountId origin fieldKey) done).length := by
  obtain ⟨before, old, settled, here⟩ := exists_loop makes sound from_ fieldKey done
  obtain ⟨after, new, settled', there⟩ := exists_loop makes sound from_ fieldKey (done ++ [target])
  rw [← here, ← there, settled.profiles, settled'.profiles, List.length_append, List.length_append, settled.count, settled'.count]
  by_cases claimed : target.id ∈ (survey s accountId origin fieldKey).claimed
  · rw [fresh_concat_of_claimed _ claimed]
    simp [claimed]
  · rw [fresh_concat_of_not_claimed _ claimed, List.length_append, List.length_singleton]
    simp only [claimed, not_false_eq_true, true_and]
    omega

/-- The last target to be handed out, with what comes before it. -/
theorem exists_last_fresh (known : Survey) (targets : List StreamTarget) (some_ : fresh known targets ≠ []) :
    ∃ done target rest, targets = done ++ target :: rest ∧ target.id ∉ known.claimed ∧
      fresh known done = (fresh known targets).dropLast := by
  induction targets using List.reverseRecOn with
  | nil => exact absurd rfl some_
  | append_singleton targets last ih =>
    by_cases claimed : last.id ∈ known.claimed
    · rw [fresh_concat_of_claimed _ claimed] at some_ ⊢
      obtain ⟨done, target, rest, rfl, open_, before⟩ := ih some_
      exact ⟨done, target, rest ++ [last], by simp, open_, before⟩
    · exact ⟨targets, last, [], rfl, claimed, by rw [fresh_concat_of_not_claimed _ claimed, List.dropLast_concat]⟩

/-- Profiles are created only where none is left exactly if all handed out before a creation have ids. -/
theorem creates_only_iff (makes : Makes draw) (sound : Sound draw s) (from_ : Origin s accountId originUuid origin)
    (list : TargetList) :
    (∀ done target rest, list.targets = done ++ target :: rest →
      (reconcile draw s accountId originUuid ⟨list.fieldKey, done⟩).profiles.length <
          (reconcile draw s accountId originUuid ⟨list.fieldKey, done ++ [target]⟩).profiles.length →
        ∀ p ∈ (reconcile draw s accountId originUuid ⟨list.fieldKey, done⟩).profiles, OfAccount accountId originUuid p →
          (reconcile draw s accountId originUuid ⟨list.fieldKey, done⟩).claimedTarget p.uuid list.fieldKey ≠ "") ↔
      ((survey s accountId origin list.fieldKey).unclaimed.length <
          (fresh (survey s accountId origin list.fieldKey) list.targets).length →
        ∀ target ∈ (fresh (survey s accountId origin list.fieldKey) list.targets).dropLast, target.id ≠ "") := by
  constructor
  · intro creates more
    obtain ⟨done, target, rest, split, open_, before⟩ := exists_last_fresh (survey s accountId origin list.fieldKey) list.targets
      (List.ne_nil_of_length_pos (Nat.zero_lt_of_lt more))
    have full : (survey s accountId origin list.fieldKey).unclaimed.length ≤
        (fresh (survey s accountId origin list.fieldKey) done).length := by
      rw [before, List.length_dropLast]
      omega
    have none_ := creates done target rest split ((creates_iff makes sound from_ list.fieldKey done target).mpr ⟨open_, full⟩)
    obtain ⟨pass, created, settled, here⟩ := exists_loop makes sound from_ list.fieldKey done
    rw [← here, settled.none_left_iff sound from_ full, before] at none_
    exact none_
  · intro named done target rest split made
    obtain ⟨open_, full⟩ := (creates_iff makes sound from_ list.fieldKey done target).mp made
    obtain ⟨pass, created, settled, here⟩ := exists_loop makes sound from_ list.fieldKey done
    rw [← here, settled.none_left_iff sound from_ full]
    have whole : fresh (survey s accountId origin list.fieldKey) list.targets =
        fresh (survey s accountId origin list.fieldKey) done ++ target :: fresh (survey s accountId origin list.fieldKey) rest := by
      rw [split]
      simp [fresh, open_]
    intro other listed
    refine named ?_ other ?_
    · rw [whole, List.length_append, List.length_cons]
      omega
    · rw [whole, List.dropLast_append_of_ne_nil (List.cons_ne_nil _ _)]
      exact List.mem_append_left _ listed

/-- A pass does what it is to do exactly over the lists that are clear. -/
theorem reconciled_iff (makes : Makes draw) (sound : Sound draw s) (from_ : Origin s accountId originUuid origin)
    (list : TargetList) :
    Reconciled draw s accountId originUuid list ↔ Clear (survey s accountId origin list.fieldKey) list.targets := by
  obtain ⟨pass, created, settled, after⟩ := exists_loop makes sound from_ list.fieldKey list.targets
  have count : ∀ target : StreamTarget, target.id ≠ "" →
      claimants (reconcile draw s accountId originUuid list) list.fieldKey target.id =
        claimants s list.fieldKey target.id + if target.id ∈ (survey s accountId origin list.fieldKey).claimed then 0
          else (list.targets.filter fun other => other.id = target.id).length := by
    intro target named
    rw [← Settled.fresh_filter_length, ← settled.claimants_eq sound from_ named, after]
  constructor
  · intro reconciled
    refine ⟨fun target listed named => ?_, (creates_only_iff makes sound from_ list).mp reconciled.creates⟩
    obtain ⟨member, open_⟩ := List.mem_filter.mp listed
    have unclaimed : target.id ∉ (survey s accountId origin list.fieldKey).claimed := of_decide_eq_true open_
    have one := (reconciled.claims target member named).1 fun claims => unclaimed ((mem_claimed_iff from_ named).mpr claims)
    rw [count target named, if_neg unclaimed] at one
    exact Nat.add_left_cancel one
  · intro clear
    refine ⟨?_, fun target member named => ⟨fun unclaimed => ?_, fun claims => ?_⟩,
      (creates_only_iff makes sound from_ list).mpr clear.named, ?_, ?_⟩
    · intro p old claims
      have absent := settled.not_handed sound from_ (List.mem_map_of_mem old) claims
      rw [← after]
      exact settled.streams_of_not_handed absent
    · have open_ : target.id ∉ (survey s accountId origin list.fieldKey).claimed :=
        fun claims => unclaimed ((mem_claimed_iff from_ named).mp claims)
      rw [count target named, if_neg open_, clear.once target (List.mem_filter.mpr ⟨member, decide_eq_true open_⟩) named]
    · rw [count target named, if_pos ((mem_claimed_iff from_ named).mpr claims), Nat.add_zero]
    · intro p there new
      rw [← after] at there ⊢
      rw [settled.profiles, List.mem_append] at there
      have made := there.resolve_left fun old => new (List.mem_map_of_mem old)
      have routed : pass.stores.routes p.uuid = emplaceAll [] (s.routes originUuid) := by
        rw [settled.routed p made, survey, from_.uuid_eq]
      exact ⟨routed, fun apart => routed.trans (emplaceAll_of_nodup apart)⟩
    · rw [← after, (settled.origin_again from_).reconcile_eq]
      exact settled.again sound from_

end

/-! ### One destination, connected -/

def countingUuids (n : Nat) : String := String.ofList (List.replicate (n + 1) 'u')

theorem countingUuids_makes : Makes countingUuids where
  apart m n same := by
    have lists := congrArg (fun uuid : String => uuid.toList.length) same
    simpa [countingUuids] using lists
  filled n empty := by
    have lists := congrArg (fun uuid : String => uuid.toList.length) empty
    simp [countingUuids] at lists

/-- The profile an account was connected from, routed to one canvas. -/
def connected : Stores where
  profiles := [{ uuid := "page", key := "k" }]
  bindings := [{ uuid := "b", profileUuid := "page", canvasUuid := "main", enabled := true }]

theorem connected_sound : Sound countingUuids connected where
  profiles := by decide
  bindings := by decide
  unused n _ := by
    have other : "page" ≠ countingUuids n := by
      intro same
      have first := congrArg (fun uuid : String => uuid.toList.head?) same
      simp [countingUuids, List.replicate_succ] at first
    exact ⟨by simpa [connected] using other.symm, by simp [connected, Stores.routes, other]⟩

theorem connected_origin : Origin connected "account" "page" { uuid := "page", key := "k" } where
  found := by decide
  linked := .inl rfl

theorem reconciled_iff_connected :
    Reconciled countingUuids connected "account" "page" ⟨"page", [{ id := "1" }, { id := "2" }]⟩ ↔
      Clear (survey connected "account" { uuid := "page", key := "k" } "page") [{ id := "1" }, { id := "2" }] :=
  reconciled_iff countingUuids_makes connected_sound connected_origin _

/-- A target listed twice is claimed by the profile connected from and by a new one. -/
theorem not_reconciled : ¬∀ (draw : Nat → String) (s : Stores) (accountId originUuid : String) (origin : Profile) (list : TargetList),
    Makes draw → Sound draw s → Origin s accountId originUuid origin → Reconciled draw s accountId originUuid list := by
  intro all
  have reconciled := all countingUuids connected "account" "page" _ ⟨"page", [{ id := "1" }, { id := "1" }]⟩
    countingUuids_makes connected_sound connected_origin
  have once := (reconciled.claims { id := "1" } List.mem_cons_self (by decide)).1 (by decide)
  exact absurd once (by decide)

end Braidcast.Multistream.Targets
