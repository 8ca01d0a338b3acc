import Braidcast.Feed.Pages

/-!
# Which request counts

Of the requests out at most one counts: it is the one in flight, and the feed's stamp is the
patches made when it was asked for. Whatever discards a page leaves its request behind the
guard's generation.
-/
namespace Braidcast.Feed

open FeedVirtualizer

variable {T K : Type} {config : FeedConfig T K}

/-- The request's reply will be taken. -/
def FeedVirtualizer.Current (feed : FeedVirtualizer config) (r : Request T) : Prop :=
  feed.guard.get r.kind = some r.generation

/-- The requests out: their generations, and which of them is in flight. -/
structure Claims (feed : FeedVirtualizer config) : Prop where
  bound : ∀ r ∈ feed.requests, ∃ g, feed.guard.get r.kind = some g ∧ r.generation ≤ g
  distinct : feed.requests.Pairwise fun r r' => r.kind = r'.kind → r.generation ≠ r'.generation
  flight : ∀ r ∈ feed.requests, feed.Current r → feed.inflight = some r.kind
  stamp : ∀ r ∈ feed.requests, feed.Current r → feed.patchStamp = some r.asked

/-- No request's reply will be taken. -/
def FeedVirtualizer.Idle (feed : FeedVirtualizer config) : Prop := ∀ r ∈ feed.requests, ¬ feed.Current r

/-! ### Generations -/

namespace RequestGuard

variable {guard : RequestGuard} {kind : Fetch} {g n : Nat}

/-- What a superseding or a later claim does to the older generations. -/
theorem lt_get_supersede (here : guard.get kind = some g) (le : n ≤ g) :
    ∃ g', guard.supersede.get kind = some g' ∧ n < g' := by
  cases kind
  all_goals exact ⟨g + 1, by simp_all [supersede, get], Nat.lt_succ_of_le le⟩

theorem lt_get_claim (here : guard.get kind = some g) (le : n ≤ g) :
    ∃ g', (guard.claim kind).get kind = some g' ∧ n < g' := by
  cases kind
  all_goals exact ⟨g + 1, by simp_all [claim, get, next], Nat.lt_succ_of_le le⟩

theorem get_claim_of_ne (guard : RequestGuard) {kind kind' : Fetch} (other : kind' ≠ kind) :
    (guard.claim kind).get kind' = guard.get kind' := by
  cases kind <;> cases kind' <;> first | rfl | exact absurd rfl other

theorem get_claim (guard : RequestGuard) (kind : Fetch) : (guard.claim kind).get kind = some (guard.next kind) := by
  cases kind <;> rfl

end RequestGuard

/-! ### Steps -/

namespace Claims

variable {feed after : FeedVirtualizer config}

theorem of_no_requests (none : feed.requests = []) : Claims feed := by
  constructor <;> simp [none]

section

variable (claims : Claims feed)
include claims

/-- What is not the requests' changes nothing. -/
theorem same (guard : after.guard = feed.guard) (inflight : after.inflight = feed.inflight)
    (stamp : after.patchStamp = feed.patchStamp) (requests : after.requests = feed.requests) : Claims after := by
  have current (r : Request T) : after.Current r = feed.Current r := by rw [Current, Current, guard]
  refine ⟨?_, requests ▸ claims.distinct, ?_, ?_⟩
  · rw [requests, guard]
    exact claims.bound
  · simp only [requests, current, inflight]
    exact claims.flight
  · simp only [requests, current, stamp]
    exact claims.stamp

/-- The requests out when every claim so far is behind the guard's generations. -/
theorem of_behind (requests : after.requests = feed.requests)
    (behind : ∀ r ∈ feed.requests, ∃ g, after.guard.get r.kind = some g ∧ r.generation < g) :
    Claims after ∧ after.Idle := by
  have idle : after.Idle := by
    intro r member current
    obtain ⟨g, at_, less⟩ := behind r (requests ▸ member)
    rw [Current, at_, Option.some.injEq] at current
    omega
  refine ⟨⟨?_, requests ▸ claims.distinct, ?_, ?_⟩, idle⟩
  · intro r member
    obtain ⟨g, at_, less⟩ := behind r (requests ▸ member)
    exact ⟨g, at_, Nat.le_of_lt less⟩
  · exact fun r member current => absurd current (idle r member)
  · exact fun r member current => absurd current (idle r member)

/-- Where no request counts, none does after another claim. -/
theorem of_idle (idle : feed.Idle) (after : FeedVirtualizer config) (requests : after.requests = feed.requests)
    (guard : after.guard = feed.guard ∨ after.guard = feed.guard.claim .older) : Claims after ∧ after.Idle := by
  apply claims.of_behind requests
  intro r member
  obtain ⟨g, here, le⟩ := claims.bound r member
  have less : r.generation < g := Nat.lt_of_le_of_ne le fun same => idle r member (here.trans (congrArg some same.symm))
  rcases guard with same | claimed
  · exact ⟨g, same ▸ here, less⟩
  · rw [claimed]
    cases kind : r.kind with
    | load => exact ⟨g, by rw [RequestGuard.get_claim_of_ne _ (by simp), ← kind, here], less⟩
    | older => exact RequestGuard.lt_get_claim (kind ▸ here) le

/-- Discarding the older page leaves the load in flight. -/
theorem discards (requests : after.requests = feed.requests) (discards : Discards feed after) :
    Claims after ∧ ∀ r ∈ after.requests, after.Current r → r.kind = .load ∧ feed.Current r := by
  obtain ⟨guard, inflight, stamp, -⟩ := discards
  -- a claim of older pages leaves the generation of the load alone
  have current : ∀ r ∈ after.requests, after.Current r → r.kind = .load ∧ feed.Current r := by
    intro r member current
    rw [Current, guard] at current
    cases kind : r.kind with
    | load =>
      rw [kind, RequestGuard.get_claim_of_ne _ (by simp)] at current
      exact ⟨rfl, by rwa [Current, kind]⟩
    | older =>
      obtain ⟨g, here, le⟩ := claims.bound r (requests ▸ member)
      obtain ⟨g', there, less⟩ := RequestGuard.lt_get_claim (kind ▸ here) le
      rw [kind, there, Option.some.injEq] at current
      omega
  have loads {r : Request T} (member : r ∈ after.requests) (now : after.Current r) : feed.inflight ≠ some .older := by
    obtain ⟨load, before⟩ := current r member now
    simp [claims.flight r (requests ▸ member) before, load]
  refine ⟨⟨?_, requests ▸ claims.distinct, ?_, ?_⟩, current⟩
  · intro r member
    obtain ⟨g, here, le⟩ := claims.bound r (requests ▸ member)
    rw [guard]
    cases kind : r.kind with
    | load => exact ⟨g, by rw [RequestGuard.get_claim_of_ne _ (by simp), ← kind, here], le⟩
    | older =>
      obtain ⟨g', there, less⟩ := RequestGuard.lt_get_claim (kind ▸ here) le
      exact ⟨g', there, Nat.le_of_lt less⟩
  · intro r member now
    rw [inflight, if_neg (loads member now)]
    exact claims.flight r (requests ▸ member) (current r member now).2
  · intro r member now
    rw [stamp, if_neg (loads member now)]
    exact claims.stamp r (requests ▸ member) (current r member now).2

/-- The one request in flight has settled. -/
theorem settled {i : Nat} {r : Request T} (here : feed.requests[i]? = some r) :
    Claims { feed with requests := feed.requests.eraseIdx i } ∧
      (feed.Current r → ({ feed with requests := feed.requests.eraseIdx i } : FeedVirtualizer config).Idle) := by
  have subset : ∀ r' ∈ feed.requests.eraseIdx i, r' ∈ feed.requests := fun r' => List.mem_of_mem_eraseIdx
  refine ⟨⟨fun r' member => claims.bound r' (subset r' member), claims.distinct.sublist (List.eraseIdx_sublist ..),
    fun r' member => claims.flight r' (subset r' member), fun r' member => claims.stamp r' (subset r' member)⟩, ?_⟩
  intro current r' member current'
  have flight := claims.flight r (List.mem_of_getElem? here) current
  -- two that count are both in flight, so of one kind and one generation: the same request
  have same : r'.kind = r.kind := by
    have := (claims.flight r' (subset r' member) current').symm.trans flight
    exact Option.some.inj this
  have generation : r'.generation = r.generation := by
    rw [Current, same] at current'
    exact Option.some.inj (current'.symm.trans current)
  obtain ⟨j, bound, other, at_⟩ := List.mem_eraseIdx_iff_getElem.mp member
  obtain ⟨bound', at'⟩ := List.getElem?_eq_some_iff.mp here
  have distinct := List.pairwise_iff_getElem.mp claims.distinct
  rcases Nat.lt_or_gt_of_ne other with less | more
  · exact distinct j i bound bound' less (by rw [at_, at', same]) (by rw [at_, at', generation])
  · exact distinct i j bound' bound more (by rw [at_, at', same]) (by rw [at_, at', generation])

/-- A request is asked for, and the ones before it no longer count. -/
theorem asked {r₀ : Request T} (requests : after.requests = feed.requests ++ [r₀])
    (inflight : after.inflight = some r₀.kind) (stamp : after.patchStamp = some r₀.asked) (mine : after.Current r₀)
    (behind : ∀ r ∈ feed.requests, ∃ g, after.guard.get r.kind = some g ∧ r.generation < g) :
    Claims after ∧ ∀ r ∈ after.requests, after.Current r → r = r₀ := by
  -- whatever was out before is behind the new generation
  have stale : ∀ r ∈ feed.requests, ¬ after.Current r := by
    intro r member current
    obtain ⟨g, here, less⟩ := behind r member
    rw [Current, here, Option.some.injEq] at current
    omega
  have alone : ∀ r ∈ after.requests, after.Current r → r = r₀ := by
    intro r member current
    rw [requests, List.mem_append, List.mem_singleton] at member
    exact member.resolve_left fun old => stale r old current
  refine ⟨⟨fun r member => ?_, ?_, fun r member current => alone r member current ▸ inflight,
    fun r member current => alone r member current ▸ stamp⟩, alone⟩
  · rw [requests, List.mem_append, List.mem_singleton] at member
    rcases member with old | rfl
    · obtain ⟨g, here, less⟩ := behind r old
      exact ⟨g, here, Nat.le_of_lt less⟩
    · exact ⟨r.generation, mine, Nat.le_refl _⟩
  · rw [requests, List.pairwise_append]
    refine ⟨claims.distinct, List.pairwise_singleton .., ?_⟩
    intro r old r' new kind generation
    obtain rfl := List.mem_singleton.mp new
    exact stale r old (by rw [Current, kind, generation]; exact mine)

theorem fetchNewest (restick : Bool) :
    Claims (feed.fetchNewest restick) ∧ ∀ r ∈ (feed.fetchNewest restick).requests,
      (feed.fetchNewest restick).Current r →
        r = ⟨.load, feed.guard.supersede.next .load, none, feed.effBase, feed.filter, feed.patchCount, none⟩ := by
  obtain ⟨autoStick, unseen, detached, shape⟩ := feed.fetchNewest_eq restick
  have guard : (feed.fetchNewest restick).guard = feed.guard.supersede.claim .load := by rw [shape]
  apply claims.asked
  · rw [shape]
  · rw [shape]
  · rw [shape]
  · rw [Current, guard]
    exact RequestGuard.get_claim ..
  · intro r member
    obtain ⟨g, here, le⟩ := claims.bound r member
    obtain ⟨g', there, less⟩ := RequestGuard.lt_get_supersede here le
    rw [guard]
    cases kind : r.kind with
    | load =>
      obtain ⟨g'', last, less'⟩ := RequestGuard.lt_get_claim (kind ▸ there) (Nat.le_refl g')
      exact ⟨g'', last, Nat.lt_trans less less'⟩
    | older => exact ⟨g', by rw [RequestGuard.get_claim_of_ne _ (by simp), ← kind, there], less⟩

/-- The page before this row is asked for, with nothing in flight. -/
theorem askedOlder (free : feed.inflight = none) (cursor : ItemRow T) (requests : after.requests = feed.requests ++
      [⟨.older, feed.guard.next .older, some cursor.item, config.page, feed.filter, feed.patchCount, none⟩])
    (guard : after.guard = feed.guard.claim .older) (inflight : after.inflight = some .older)
    (stamp : after.patchStamp = some feed.patchCount) :
    Claims after ∧ ∀ r ∈ after.requests, after.Current r →
      r = ⟨.older, feed.guard.next .older, some cursor.item, config.page, feed.filter, feed.patchCount, none⟩ := by
  apply claims.asked requests inflight stamp
  · rw [Current, guard]
    exact RequestGuard.get_claim ..
  · -- nothing is in flight, so no request counts; a claim for older pages makes no load count
    intro r member
    obtain ⟨g, here, le⟩ := claims.bound r member
    rw [guard]
    cases kind : r.kind with
    | load =>
      refine ⟨g, by rw [RequestGuard.get_claim_of_ne _ (by simp), ← kind, here], Nat.lt_of_le_of_ne le ?_⟩
      rintro rfl
      have := claims.flight r member here
      rw [free] at this
      cases this
    | older => exact RequestGuard.lt_get_claim (kind ▸ here) le

theorem maybeFetchOlder (nearTop : Bool) : Claims (feed.maybeFetchOlder nearTop) := by
  rcases feed.maybeFetchOlder_cases nearTop with same | ⟨cursor, free, -, -, shape⟩
  · rw [same]
    exact claims
  · exact (claims.askedOlder free cursor (by rw [shape]) (by rw [shape]) (by rw [shape]) (by rw [shape])).1

theorem arrived [LinearOrder K] {batch : List T} (arrived : Arrived feed batch after) : Claims after := by
  have requests : after.requests = feed.requests := by rw [arrived.rest]
  rcases arrived.requests with ⟨guard, inflight, stamp⟩ | discards
  · exact claims.same guard inflight stamp requests
  · exact (claims.discards requests discards).1

theorem reset [LinearOrder K] {cleared : Nat} (new : feed.epoch < cleared) :
    Claims (feed.reset cleared) ∧ (feed.reset cleared).Idle := by
  have shape := feed.reset_eq new
  apply claims.of_behind (by rw [shape])
  intro r member
  obtain ⟨g, here, le⟩ := claims.bound r member
  rw [shape]
  exact RequestGuard.lt_get_supersede here le

end

end Claims

end Braidcast.Feed
