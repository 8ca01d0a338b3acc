import Braidcast.Lib.Assign
import Braidcast.Lib.Emplace
import Braidcast.Lib.Json
import Braidcast.Multistream.Engine

/-!
# The destinations of an account's targets

The reconcile runs on the UI thread, over the profile store, the remembered per-stream bags and
the bindings of the active scene collection. Labels, the saves and the events after a pass are
left out: what it decides reads none of them.
-/
namespace Braidcast.Multistream.Targets

open Lib

structure StreamTarget where
  id : String
  name : String := ""
  avatarUrl : String := ""

structure TargetList where
  fieldKey : String
  targets : List StreamTarget

structure Profile extends StreamProfile where
  accountId : String := ""
  deriving DecidableEq

structure Stores where
  profiles : List Profile
  /-- The remembered bag of each profile that has one. -/
  streams : String → Option Json := fun _ => none
  bindings : List OutputBinding := []
  /-- How many uuids were made. -/
  drawn : Nat := 0

/-! ### Claims -/

def claimedIn (fieldKey : String) : Option Json → String
  | some (.obj bag) =>
    match Fields.get? bag fieldKey with
    | some (.obj field) =>
      match Fields.get? field "id" with
      | some (.str id) => id
      | _ => ""
    | _ => ""
  | _ => ""

def claimBag (fieldKey : String) (target : StreamTarget) (bag : Option Json) : Json :=
  let fields := match bag with
    | some (.obj fields) => fields
    | _ => []
  .obj (Fields.set fieldKey (.obj [("avatarUrl", .str target.avatarUrl), ("id", .str target.id), ("name", .str target.name)]) fields)

namespace Stores

variable (s : Stores)

def find (uuid : String) : Option Profile := s.profiles.find? fun p => p.uuid = uuid

/-- "" while nothing is claimed. -/
def claimedTarget (profileUuid fieldKey : String) : String := claimedIn fieldKey (s.streams profileUuid)

def claimTarget (profileUuid fieldKey : String) (target : StreamTarget) : Stores :=
  { s with streams := Function.update s.streams profileUuid (some (claimBag fieldKey target (s.streams profileUuid))) }

/-! ### Routes -/

/-- The canvases a profile is routed to, each with the enabled flag of its binding. -/
def routes (profileUuid : String) : List (String × Bool) :=
  (s.bindings.filter fun b => b.profileUuid = profileUuid).map fun b => (b.canvasUuid, b.enabled)

def hasPair (profileUuid canvasUuid excludeUuid : String) : Bool :=
  s.bindings.any fun b => b.uuid ≠ excludeUuid && (b.profileUuid = profileUuid && b.canvasUuid = canvasUuid)

end Stores

section

variable (draw : Nat → String)

def routeLikeOrigin (profileUuid : String) (routes : List (String × Bool)) (s : Stores) : Stores :=
  routes.foldl (fun s route =>
    if s.hasPair profileUuid route.1 "" then s
    else { s with
      bindings := s.bindings ++ [{ uuid := draw s.drawn, profileUuid, canvasUuid := route.1, enabled := route.2 }]
      drawn := s.drawn + 1 }) s

/-! ### The reconcile -/

/-- The origin's service without its credential, under the account. -/
def newProfileFor (model : StreamProfile) (accountId uuid : String) : Profile :=
  if model.serviceId = "whip_custom" then { model with uuid, accountId, bearerToken := "" }
  else { model with uuid, accountId, key := "" }

/-- What a reconcile reads before its loop. -/
structure Survey where
  model : StreamProfile
  accountId : String
  fieldKey : String
  claimed : List String
  unclaimed : List String
  routes : List (String × Bool)

def owned (s : Stores) (accountId originUuid : String) : List String :=
  originUuid :: (s.profiles.filter fun p => p.accountId = accountId && decide (p.uuid ≠ originUuid)).map (·.uuid)

def survey (s : Stores) (accountId : String) (origin : Profile) (fieldKey : String) : Survey where
  model := origin.toStreamProfile
  accountId := accountId
  fieldKey := fieldKey
  claimed := ((owned s accountId origin.uuid).map fun uuid => s.claimedTarget uuid fieldKey).filter fun id => id ≠ ""
  unclaimed := (owned s accountId origin.uuid).filter fun uuid => s.claimedTarget uuid fieldKey = ""
  routes := s.routes origin.uuid

structure Pass where
  stores : Stores
  nextUnclaimed : Nat := 0

/-- One target of the loop, against what was claimed before it. -/
def settle (known : Survey) (pass : Pass) (target : StreamTarget) : Pass :=
  if target.id ∈ known.claimed then pass
  else
    match known.unclaimed[pass.nextUnclaimed]? with
    | some uuid => ⟨pass.stores.claimTarget uuid known.fieldKey target, pass.nextUnclaimed + 1⟩
    | none =>
      let p := newProfileFor known.model known.accountId (draw pass.stores.drawn)
      let added : Stores := { pass.stores with profiles := pass.stores.profiles ++ [p], drawn := pass.stores.drawn + 1 }
      ⟨routeLikeOrigin draw p.uuid known.routes (added.claimTarget p.uuid known.fieldKey target), pass.nextUnclaimed⟩

def reconcile (s : Stores) (accountId originUuid : String) (list : TargetList) : Stores :=
  match s.find originUuid with
  | none => s
  | some origin =>
    if origin.accountId ≠ "" ∧ origin.accountId ≠ accountId then s
    else (list.targets.foldl (settle draw (survey s accountId origin list.fieldKey)) { stores := s }).stores

end

end Braidcast.Multistream.Targets

/-!
## What a reconcile leaves claimed

The targets that no profile of the account claimed go, in the order they are listed, first to the
profiles without a target and then to new ones. The claims are read once, before the loop: a
target listed twice is handed out twice.
-/
namespace Braidcast.Multistream.Targets

open Lib

section

variable {fieldKey : String} {target : StreamTarget} {bag : Option Json}

/-! ### Claims -/

theorem claimedIn_claimBag : claimedIn fieldKey (some (claimBag fieldKey target bag)) = target.id := by
  simp [claimedIn, claimBag, Fields.get?_cons]

theorem claimBag_twice (target : StreamTarget) (bag : Option Json) :
    claimBag fieldKey target (some (claimBag fieldKey target bag)) = claimBag fieldKey target bag := by
  simp [claimBag]

end

/-- The bags after the targets of `pairs` were claimed. -/
def bagsAfter (fieldKey : String) (streams : String → Option Json) (pairs : List (String × StreamTarget)) :
    String → Option Json :=
  assign (fun target bag => some (claimBag fieldKey target bag)) streams pairs

/-! ### Uuids -/

/-- What the generator of uuids gives. -/
structure Makes (draw : Nat → String) : Prop where
  apart : Function.Injective draw
  filled : ∀ n, draw n ≠ ""

/-- Stores a pass can run over: each profile under its own uuid, bindings with a uuid, and uuids
still to be made that nothing uses. -/
structure Sound (draw : Nat → String) (s : Stores) : Prop where
  profiles : (s.profiles.map (·.uuid)).Nodup
  bindings : ∀ b ∈ s.bindings, b.uuid ≠ ""
  unused : ∀ n, s.drawn ≤ n → draw n ∉ s.profiles.map (·.uuid) ∧ s.routes (draw n) = []

/-! ### Routes -/

section

variable {draw : Nat → String} {s : Stores} {profileUuid : String} {routes : List (String × Bool)}

theorem hasPair_iff (named : ∀ b ∈ s.bindings, b.uuid ≠ "") (profileUuid canvasUuid : String) :
    s.hasPair profileUuid canvasUuid "" = true ↔ canvasUuid ∈ (s.routes profileUuid).map Prod.fst := by
  simp only [Stores.hasPair, Stores.routes, List.any_eq_true, Bool.and_eq_true, decide_eq_true_eq, List.map_map, List.mem_map,
    List.mem_filter, Function.comp_apply]
  constructor
  · rintro ⟨b, member, -, profile, canvas⟩
    exact ⟨b, ⟨member, profile⟩, canvas⟩
  · rintro ⟨b, ⟨member, profile⟩, canvas⟩
    exact ⟨b, member, by simpa using named b member, profile, canvas⟩

/-- What routing a profile changes: its own routes, one for each canvas of the origin's. -/
structure Routed (draw : Nat → String) (s : Stores) (profileUuid : String) (routes : List (String × Bool)) (t : Stores) : Prop where
  profiles : t.profiles = s.profiles
  streams : t.streams = s.streams
  drawn : s.drawn ≤ t.drawn
  named : ∀ b ∈ t.bindings, b.uuid ≠ ""
  own : t.routes profileUuid = emplaceAll (s.routes profileUuid) routes
  others : ∀ other, other ≠ profileUuid → t.routes other = s.routes other

theorem routeLikeOrigin_routed (makes : Makes draw) (named : ∀ b ∈ s.bindings, b.uuid ≠ "") (profileUuid : String)
    (routes : List (String × Bool)) : Routed draw s profileUuid routes (routeLikeOrigin draw profileUuid routes s) := by
  refine foldl_rule (P := fun done t => Routed draw s profileUuid done t) ⟨rfl, rfl, Nat.le_refl _, named, rfl, fun _ _ => rfl⟩ ?_ routes
  intro done route t before
  have own : emplaceAll (s.routes profileUuid) (done ++ [route]) = emplace (t.routes profileUuid) route := by
    rw [before.own, emplaceAll, List.foldl_append]
    rfl
  have pair := hasPair_iff before.named profileUuid route.1
  by_cases there : t.hasPair profileUuid route.1 ""
  · rw [if_pos there]
    refine { before with own := ?_ }
    rw [own, emplace, if_pos (pair.mp there)]
  · rw [if_neg there]
    refine ⟨before.profiles, before.streams, before.drawn.trans (Nat.le_succ _), ?_, ?_, fun other apart => ?_⟩
    · intro b member
      rcases List.mem_append.mp member with old | new
      · exact before.named b old
      · rw [List.mem_singleton.mp new]
        exact makes.filled _
    · rw [own, emplace, if_neg fun listed => there (pair.mpr listed)]
      simp [Stores.routes]
    · rw [← before.others other apart]
      simp [Stores.routes, apart.symm]

end

/-! ### The loop -/

/-- The targets that nothing claimed before the loop. -/
def fresh (known : Survey) (targets : List StreamTarget) : List StreamTarget :=
  targets.filter fun target => target.id ∉ known.claimed

/-- Who gets which target, where `created` are the new profiles. -/
def handed (known : Survey) (created : List Profile) (done : List StreamTarget) : List (String × StreamTarget) :=
  (known.unclaimed ++ created.map (·.uuid)).zip (fresh known done)

/-- Where the loop stands after the targets `done`. -/
structure Settled (draw : Nat → String) (s : Stores) (known : Survey) (done : List StreamTarget) (pass : Pass)
    (created : List Profile) : Prop where
  profiles : pass.stores.profiles = s.profiles ++ created
  next : pass.nextUnclaimed = min known.unclaimed.length (fresh known done).length
  count : created.length = (fresh known done).length - known.unclaimed.length
  account : ∀ p ∈ created, p.accountId = known.accountId
  made : ∀ p ∈ created, ∃ n, s.drawn ≤ n ∧ n < pass.stores.drawn ∧ p.uuid = draw n
  apart : (created.map (·.uuid)).Nodup
  drawn : s.drawn ≤ pass.stores.drawn
  streams : pass.stores.streams = bagsAfter known.fieldKey s.streams (handed known created done)
  named : ∀ b ∈ pass.stores.bindings, b.uuid ≠ ""
  routed : ∀ p ∈ created, pass.stores.routes p.uuid = emplaceAll [] known.routes
  others : ∀ uuid, uuid ∉ created.map (·.uuid) → pass.stores.routes uuid = s.routes uuid

section

variable {draw : Nat → String} {s : Stores} {known : Survey} {done : List StreamTarget} {pass : Pass} {created : List Profile}
  {target : StreamTarget}

theorem fresh_concat_of_claimed (done : List StreamTarget) (claimed : target.id ∈ known.claimed) : fresh known (done ++ [target]) = fresh known done := by
  simp [fresh, claimed]

theorem fresh_concat_of_not_claimed (done : List StreamTarget) (open_ : target.id ∉ known.claimed) :
    fresh known (done ++ [target]) = fresh known done ++ [target] := by
  simp [fresh, open_]

section

variable (settled : Settled draw s known done pass created)
include settled

/-- A target with no claimant goes to the next profile without one. -/
theorem Settled.adopt (open_ : target.id ∉ known.claimed) {uuid : String}
    (next : known.unclaimed[pass.nextUnclaimed]? = some uuid) :
    Settled draw s known (done ++ [target])
      ⟨pass.stores.claimTarget uuid known.fieldKey target, pass.nextUnclaimed + 1⟩ created := by
  have grown := fresh_concat_of_not_claimed done open_
  have left : (fresh known done).length < known.unclaimed.length := by
    have inside := (List.getElem?_eq_some_iff.mp next).1
    have here := settled.next
    omega
  have place : pass.nextUnclaimed = (fresh known done).length := by rw [settled.next, min_eq_right left.le]
  have empty : created = [] := List.length_eq_zero_iff.mp (by rw [settled.count]; omega)
  subst empty
  have pairs : handed known [] (done ++ [target]) = handed known [] done ++ [(uuid, target)] := by
    rw [handed, grown]
    refine zip_concat_of_getElem? ?_
    rw [← place, List.map_nil, List.append_nil, next]
  refine { settled with next := ?_, count := ?_, streams := ?_ }
  · rw [grown, List.length_append, List.length_singleton]
    dsimp only
    omega
  · rw [grown, List.length_append, List.length_singleton, List.length_nil]
    omega
  · have bags := settled.streams
    rw [bagsAfter] at bags
    rw [pairs, bagsAfter, assign_concat, ← bags]
    rfl

/-- A new uuid is none of those in use. -/
theorem Settled.new (makes : Makes draw) (sound : Sound draw s) :
    draw pass.stores.drawn ∉ s.profiles.map (·.uuid) ∧ draw pass.stores.drawn ∉ created.map (·.uuid) ∧
      pass.stores.routes (draw pass.stores.drawn) = [] := by
  have unused := sound.unused pass.stores.drawn settled.drawn
  have other : draw pass.stores.drawn ∉ created.map (·.uuid) := by
    intro listed
    obtain ⟨p, member, same⟩ := List.mem_map.mp listed
    obtain ⟨n, -, before, drawn⟩ := settled.made p member
    exact before.ne (makes.apart (drawn.symm.trans same))
  exact ⟨unused.1, other, (settled.others _ other).trans unused.2⟩

/-- Once every profile has a target, the next one gets a profile of its own, routed as the origin is. -/
theorem Settled.create (makes : Makes draw) (sound : Sound draw s)
    (open_ : target.id ∉ known.claimed) (next : known.unclaimed[pass.nextUnclaimed]? = none) {p : Profile} {t : Stores}
    (uuid : p.uuid = draw pass.stores.drawn) (account : p.accountId = known.accountId)
    (routed : Routed draw (({ pass.stores with
      profiles := pass.stores.profiles ++ [p], drawn := pass.stores.drawn + 1 } : Stores).claimTarget p.uuid known.fieldKey target)
        p.uuid known.routes t) :
    Settled draw s known (done ++ [target]) ⟨t, pass.nextUnclaimed⟩ (created ++ [p]) := by
  have grown := fresh_concat_of_not_claimed done open_
  have full : known.unclaimed.length ≤ (fresh known done).length := by
    have outside := List.getElem?_eq_none_iff.mp next
    have here := settled.next
    omega
  have count := settled.count
  obtain ⟨-, new, routes⟩ := settled.new makes sound
  have pairs : handed known (created ++ [p]) (done ++ [target]) = handed known created done ++ [(p.uuid, target)] := by
    rw [handed, grown, List.map_append, ← List.append_assoc]
    refine zip_concat_concat ?_
    rw [List.length_append, List.length_map]
    omega
  have drawn : pass.stores.drawn + 1 ≤ t.drawn := routed.drawn
  refine ⟨?_, ?_, ?_, ?_, ?_, ?_, ?_, ?_, routed.named, ?_, ?_⟩
  · rw [routed.profiles, ← List.append_assoc, ← settled.profiles]
    rfl
  · rw [grown, List.length_append, List.length_singleton, settled.next]
    omega
  · rw [grown, List.length_append, List.length_append, List.length_singleton, List.length_singleton]
    omega
  · intro q member
    rcases List.mem_append.mp member with old | new
    · exact settled.account q old
    · exact List.mem_singleton.mp new ▸ account
  · intro q member
    rcases List.mem_append.mp member with old | new
    · obtain ⟨n, first, before, made⟩ := settled.made q old
      exact ⟨n, first, by dsimp only; omega, made⟩
    · rw [List.mem_singleton.mp new]
      exact ⟨pass.stores.drawn, settled.drawn, drawn, uuid⟩
  · exact nodup_map_concat settled.apart (uuid ▸ new)
  · exact settled.drawn.trans ((Nat.le_succ _).trans drawn)
  · have bags := settled.streams
    rw [bagsAfter] at bags
    rw [pairs, bagsAfter, assign_concat, routed.streams, ← bags]
    rfl
  · intro q member
    rcases List.mem_append.mp member with old | last
    · have apart : q.uuid ≠ p.uuid := fun same => new (uuid ▸ same ▸ List.mem_map_of_mem old)
      rw [routed.others q.uuid apart]
      exact settled.routed q old
    · rw [List.mem_singleton.mp last, routed.own]
      have none_ : pass.stores.routes p.uuid = [] := uuid ▸ routes
      exact congrArg (emplaceAll · known.routes) none_
  · intro other absent
    rw [List.map_append, List.mem_append, not_or, List.map_singleton, List.mem_singleton] at absent
    rw [routed.others other absent.2]
    exact settled.others other absent.1

end

theorem newProfileFor_uuid (model : StreamProfile) (accountId uuid : String) :
    (newProfileFor model accountId uuid).uuid = uuid ∧ (newProfileFor model accountId uuid).accountId = accountId := by
  unfold newProfileFor
  split <;> exact ⟨rfl, rfl⟩

theorem Settled.settle (settled : Settled draw s known done pass created) (makes : Makes draw) (sound : Sound draw s)
    (target : StreamTarget) :
    ∃ created, Settled draw s known (done ++ [target]) (settle draw known pass target) created := by
  unfold Targets.settle
  split
  · next claimed =>
    have same := fresh_concat_of_claimed done claimed
    refine ⟨created, { settled with next := ?_, count := ?_, streams := ?_ }⟩
    · rw [same]
      exact settled.next
    · rw [same]
      exact settled.count
    · rw [handed, same]
      exact settled.streams
  · next open_ =>
    cases next : known.unclaimed[pass.nextUnclaimed]? with
    | some uuid => exact ⟨created, settled.adopt open_ next⟩
    | none =>
      obtain ⟨uuid, account⟩ := newProfileFor_uuid known.model known.accountId (draw pass.stores.drawn)
      refine ⟨_, settled.create makes sound open_ next uuid account ?_⟩
      exact routeLikeOrigin_routed makes (by exact settled.named) _ _

theorem exists_settled (makes : Makes draw) (sound : Sound draw s) (known : Survey) (targets : List StreamTarget) :
    ∃ created, Settled draw s known targets (targets.foldl (settle draw known) { stores := s }) created := by
  refine foldl_rule (P := fun done pass => ∃ created, Settled draw s known done pass created) ⟨[], ?_⟩ ?_ targets
  · have none_ : handed known [] [] = [] := List.zip_nil_right
    refine ⟨(List.append_nil _).symm, by simp [fresh], by simp [fresh], ?_, ?_, List.nodup_nil, Nat.le_refl _, ?_, sound.bindings,
      ?_, fun _ _ => rfl⟩
    · exact fun _ absent => nomatch absent
    · exact fun _ absent => nomatch absent
    · rw [none_]
      rfl
    · exact fun _ absent => nomatch absent
  · rintro done target pass ⟨created, settled⟩
    exact settled.settle makes sound target

end

/-! ### The account's profiles -/

def OfAccount (accountId originUuid : String) (p : Profile) : Prop := p.uuid = originUuid ∨ p.accountId = accountId

instance (accountId originUuid : String) (p : Profile) : Decidable (OfAccount accountId originUuid p) :=
  inferInstanceAs (Decidable (_ ∨ _))

/-- The profile a reconcile starts from: it is there, and not another account's. -/
structure Origin (s : Stores) (accountId originUuid : String) (origin : Profile) : Prop where
  found : s.find originUuid = some origin
  linked : origin.accountId = "" ∨ origin.accountId = accountId

section

variable {draw : Nat → String} {s : Stores} {accountId originUuid fieldKey uuid id : String} {origin : Profile}

section

variable (from_ : Origin s accountId originUuid origin)
include from_

theorem Origin.uuid_eq : origin.uuid = originUuid := by
  simpa using List.find?_some from_.found

theorem Origin.member : origin ∈ s.profiles :=
  List.mem_of_find?_eq_some from_.found

theorem Origin.reconcile_eq (list : TargetList) :
    reconcile draw s accountId originUuid list =
      (list.targets.foldl (settle draw (survey s accountId origin list.fieldKey)) { stores := s }).stores := by
  have linked : ¬(origin.accountId ≠ "" ∧ origin.accountId ≠ accountId) := by
    rintro ⟨some_, other⟩
    exact from_.linked.elim some_ other
  rw [reconcile, from_.found]
  exact if_neg linked

theorem mem_owned_iff :
    uuid ∈ owned s accountId originUuid ↔ ∃ p ∈ s.profiles, OfAccount accountId originUuid p ∧ p.uuid = uuid := by
  rw [owned, List.mem_cons, List.mem_map]
  simp only [List.mem_filter, Bool.and_eq_true, decide_eq_true_eq]
  constructor
  · rintro (rfl | ⟨p, ⟨member, account, -⟩, same⟩)
    · exact ⟨origin, from_.member, .inl from_.uuid_eq, from_.uuid_eq⟩
    · exact ⟨p, member, .inr account, same⟩
  · rintro ⟨p, member, isOrigin | account, same⟩
    · exact .inl (same ▸ isOrigin)
    · by_cases first : p.uuid = originUuid
      · exact .inl (same ▸ first)
      · exact .inr ⟨p, ⟨member, account, first⟩, same⟩

end

theorem owned_nodup (sound : Sound draw s) (accountId originUuid : String) : (owned s accountId originUuid).Nodup := by
  refine List.nodup_cons.mpr ⟨fun listed => ?_, sound.profiles.sublist (List.filter_sublist.map _)⟩
  obtain ⟨p, member, same⟩ := List.mem_map.mp listed
  simp only [List.mem_filter, Bool.and_eq_true, decide_eq_true_eq] at member
  exact member.2.2 same

theorem mem_claimed_iff (from_ : Origin s accountId originUuid origin) (named : id ≠ "") :
    id ∈ (survey s accountId origin fieldKey).claimed ↔
      ∃ p ∈ s.profiles, OfAccount accountId originUuid p ∧ s.claimedTarget p.uuid fieldKey = id := by
  rw [survey, from_.uuid_eq, List.mem_filter, List.mem_map]
  constructor
  · rintro ⟨⟨uuid, owned_, claims⟩, -⟩
    obtain ⟨p, member, account, rfl⟩ := (mem_owned_iff from_).mp owned_
    exact ⟨p, member, account, claims⟩
  · rintro ⟨p, member, account, claims⟩
    exact ⟨⟨p.uuid, (mem_owned_iff from_).mpr ⟨p, member, account, rfl⟩, claims⟩, by simpa using named⟩

end

/-! ### After the loop -/

namespace Settled

variable {draw : Nat → String} {s : Stores} {accountId originUuid fieldKey uuid id : String} {origin : Profile}
  {targets : List StreamTarget} {target : StreamTarget} {pass : Pass} {created : List Profile}

/-- A new profile has a uuid that no profile had. -/
theorem uuid_notMem (settled : Settled draw s (survey s accountId origin fieldKey) targets pass created) (sound : Sound draw s)
    (listed : uuid ∈ created.map (·.uuid)) : uuid ∉ s.profiles.map (·.uuid) := by
  obtain ⟨p, member, rfl⟩ := List.mem_map.mp listed
  obtain ⟨n, first, -, made⟩ := settled.made p member
  rw [made]
  exact (sound.unused n first).1

theorem owned_mem (from_ : Origin s accountId originUuid origin) (listed : uuid ∈ owned s accountId originUuid) :
    uuid ∈ s.profiles.map (·.uuid) := by
  obtain ⟨p, member, -, rfl⟩ := (mem_owned_iff from_).mp listed
  exact List.mem_map_of_mem member

theorem mem_unclaimed_iff (from_ : Origin s accountId originUuid origin) :
    uuid ∈ (survey s accountId origin fieldKey).unclaimed ↔
      uuid ∈ owned s accountId originUuid ∧ s.claimedTarget uuid fieldKey = "" := by
  rw [survey, from_.uuid_eq, List.mem_filter, decide_eq_true_eq]

section

variable (settled : Settled draw s (survey s accountId origin fieldKey) targets pass created)
include settled

theorem takers_nodup (sound : Sound draw s) (from_ : Origin s accountId originUuid origin) :
    ((survey s accountId origin fieldKey).unclaimed ++ created.map (·.uuid)).Nodup := by
  refine List.nodup_append.mpr ⟨?_, settled.apart, ?_⟩
  · exact (owned_nodup sound accountId origin.uuid).sublist List.filter_sublist
  · rintro uuid old other new rfl
    exact settled.uuid_notMem sound new (owned_mem from_ ((mem_unclaimed_iff from_).mp old).1)

theorem handed_nodup (sound : Sound draw s) (from_ : Origin s accountId originUuid origin) :
    ((handed (survey s accountId origin fieldKey) created targets).map Prod.fst).Nodup :=
  (settled.takers_nodup sound from_).sublist (takers_of_zip ..).sublist

/-- Every target handed out has a taker. -/
theorem handed_targets :
    (handed (survey s accountId origin fieldKey) created targets).map Prod.snd =
      fresh (survey s accountId origin fieldKey) targets := by
  refine zip_snd_of_le ?_
  rw [List.length_append, List.length_map, settled.count]
  omega

/-- Where the profiles without a target do not suffice, every one of them gets one, and every new profile. -/
theorem handed_takers
    (all : (survey s accountId origin fieldKey).unclaimed.length ≤ (fresh (survey s accountId origin fieldKey) targets).length) :
    (handed (survey s accountId origin fieldKey) created targets).map Prod.fst =
      (survey s accountId origin fieldKey).unclaimed ++ created.map (·.uuid) := by
  refine (takers_of_zip ..).eq_of_length ?_
  have count := settled.count
  rw [List.length_map, List.length_zip, List.length_append, List.length_map]
  omega

theorem created_handed (listed : uuid ∈ created.map (·.uuid)) :
    uuid ∈ (handed (survey s accountId origin fieldKey) created targets).map Prod.fst := by
  have some_ : 0 < created.length := by
    rw [← List.length_map (f := (·.uuid))]
    exact List.length_pos_of_mem listed
  have count := settled.count
  rw [settled.handed_takers (by omega)]
  exact List.mem_append_right _ listed

theorem claimed_of_handed (sound : Sound draw s) (from_ : Origin s accountId originUuid origin)
    (member : (uuid, target) ∈ handed (survey s accountId origin fieldKey) created targets) :
    pass.stores.claimedTarget uuid fieldKey = target.id := by
  rw [Stores.claimedTarget, settled.streams, bagsAfter, assign_of_mem (settled.handed_nodup sound from_) member]
  exact claimedIn_claimBag

theorem streams_of_not_handed (absent : uuid ∉ (handed (survey s accountId origin fieldKey) created targets).map Prod.fst) :
    pass.stores.streams uuid = s.streams uuid := by
  rw [settled.streams, bagsAfter, assign_of_notMem absent]

/-- A profile that claims a target is handed none. -/
theorem not_handed (sound : Sound draw s) (from_ : Origin s accountId originUuid origin) (old : uuid ∈ s.profiles.map (·.uuid))
    (claims : s.claimedTarget uuid fieldKey ≠ "") :
    uuid ∉ (handed (survey s accountId origin fieldKey) created targets).map Prod.fst := by
  intro listed
  rcases List.mem_append.mp ((takers_of_zip ..).subset listed) with unclaimed | new
  · exact claims ((mem_unclaimed_iff from_).mp unclaimed).2
  · exact settled.uuid_notMem sound new old

end

end Settled

end Braidcast.Multistream.Targets
