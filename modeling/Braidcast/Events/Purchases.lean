import Braidcast.Events.Hub
import Braidcast.Events.Removals

/-!
# A Delete and the copies of a purchase

The two copies of a purchase and a Delete of its message, in any order. The store holds the
copies behind everything else, so each act is followed on the tail of its events. The Delete
reaches the REST copy through the live copy only, so where the live copy comes last nothing
takes the REST copy's words.
-/
namespace Braidcast.Events

open Chat EventStore

/-- A copy as it is stored: with its own words, or without and marked. -/
structure Worded (base c : NormalizedEvent) : Prop where
  same : c = { base with message := c.message, deleted := c.deleted }
  words : c.message = base.message ∨ (c.message = "" ∧ c.deleted ≠ "")

variable {p : Purchase} {op : ModerationOp} {hub : EventHub}

theorem deletedMark_ne (action : ModerationAction) : deletedMark action ≠ "" := by
  cases action <;> decide

theorem Worded.refl (base : NormalizedEvent) : Worded base base := ⟨rfl, .inl rfl⟩

variable {base c : NormalizedEvent}

theorem Worded.redactEvent (worded : Worded base c) (found : NormalizedEvent → Bool)
    {mark : String} (marked : mark ≠ "") : Worded base (redactEvent found mark c) := by
  simp only [EventStore.redactEvent]
  split
  · refine ⟨?_, .inr ⟨rfl, marked⟩⟩
    have same := worded.same
    generalize c.message = m at same
    generalize c.deleted = d at same
    subst same
    rfl
  · exact worded

/-- An event whose words are reached keeps none. -/
theorem redactEvent_silent {found : NormalizedEvent → Bool} {mark : String}
    (reached : found c = true) : (redactEvent found mark c).message = "" := by
  unfold EventStore.redactEvent redacts
  split
  · rfl
  next kept => simpa [reached] using kept

/-! ### Scrubbing -/

theorem scrub_worded (removals : List Removal) (store : EventStore) (ev : NormalizedEvent) (nowMs : Int) :
    Worded ev (scrub removals store ev nowMs) := by
  simp only [scrub]
  split
  · exact .refl ev
  next marked => exact ⟨rfl, .inr ⟨rfl, fun empty => marked (.inr empty)⟩⟩

variable {ev : NormalizedEvent}

/-- A removal that is remembered and reaches the event marks it. -/
theorem scrubMark_of_removal {removals : List Removal} {r : Removal} (member : r ∈ removals) {nowMs : Int}
    (recent : nowMs - r.seenMs ≤ kKeepMs) (reached : reaches r.reach r.dest ev = true)
    (store : EventStore) : scrubMark removals store ev nowMs ≠ "" := by
  obtain ⟨first, found⟩ : ∃ first, (removals.find? fun r =>
      decide (nowMs - r.seenMs ≤ kKeepMs) && reaches r.reach r.dest ev) = some first := by
    rw [← Option.isSome_iff_exists, List.find?_isSome]
    exact ⟨r, member, by simp [recent, reached]⟩
  simp only [scrubMark]
  rw [found]
  simp [deletedMark_ne]

/-- A copy stored with its words removed marks the REST copy. -/
theorem scrubMark_of_twin {store : EventStore} {paid : NormalizedEvent} (member : paid ∈ store.events)
    (marked : paid.deleted ≠ "") (same : samePurchase paid ev = true) (unnamed : ev.msgId = "")
    (removals : List Removal) (nowMs : Int) : scrubMark removals store ev nowMs ≠ "" := by
  unfold scrubMark
  dsimp only
  split
  · have held : paid ∈ store.select fun paid => paid.deleted != "" && samePurchase paid ev := by
      simp [EventStore.select, member, marked, same]
    cases chosen : store.select fun paid => paid.deleted != "" && samePurchase paid ev with
    | nil => simp [chosen] at held
    | cons twin rest =>
      have first : twin ∈ store.select fun paid => paid.deleted != "" && samePurchase paid ev := by simp [chosen]
      simp only [EventStore.select, List.mem_filter, Bool.and_eq_true, bne_iff_ne] at first
      simpa using first.2.1
  next kept =>
    intro empty
    exact kept ⟨empty, unnamed⟩

theorem scrub_silent {removals : List Removal} {store : EventStore} {nowMs : Int}
    (marked : scrubMark removals store ev nowMs ≠ "") : (scrub removals store ev nowMs).message = "" := by
  simp only [scrub]
  split
  next kept => exact kept.resolve_right marked
  · rfl

/-- A REST copy's words are taken exactly where something removed earlier reaches it. -/
theorem scrub_silent_iff (text : ev.message ≠ "") (unnamed : ev.msgId = "") {nowMs : Int} :
    (scrub hub.removals hub.store ev nowMs).message = "" ↔ Forewarned hub ev nowMs := by
  constructor
  · intro silent
    have marked : scrubMark hub.removals hub.store ev nowMs ≠ "" := by
      intro unmarked
      simp [scrub, unmarked, text] at silent
    by_contra unwarned
    simp only [Forewarned, not_or, not_exists, not_and, Bool.not_eq_true] at unwarned
    apply marked
    have noRemoval : (hub.removals.find? fun r =>
        decide (nowMs - r.seenMs ≤ kKeepMs) && reaches r.reach r.dest ev) = none := by
      rw [List.find?_eq_none]
      intro r member
      simpa using unwarned.1 r member
    -- and nothing of the same purchase has lost its words
    have noTwin : (hub.store.select fun paid => paid.deleted != "" && samePurchase paid ev) = [] := by
      rw [EventStore.select, List.filter_eq_nil_iff]
      intro paid member
      simpa using unwarned.2 paid member
    simp only [scrubMark]
    rw [noRemoval, noTwin]
    simp
  · rintro (⟨r, member, recent, reached⟩ | ⟨paid, member, marked, same⟩)
    · exact scrub_silent (scrubMark_of_removal member recent reached hub.store)
    · exact scrub_silent (scrubMark_of_twin member marked same unnamed hub.removals nowMs)

/-! ### What the Delete reaches -/

theorem samePurchase_copies {l r : NormalizedEvent} (live : Worded p.live l) (rest : Worded p.rest r)
    (apart : p.rest.id ≠ p.live.id) : samePurchase l r = true := by
  rw [live.same, rest.same]
  have skew := p.skew
  -- the two copies are stamped within the skew
  have near : (if p.rest.ts < p.live.ts then p.live.ts - p.rest.ts else p.rest.ts - p.live.ts) ≤ kSamePurchaseSkewMs := by
    split <;> omega
  simp [samePurchase, p.author, p.account, p.platform, p.type, p.amount, p.unnamed, p.viewed, apart, near]

/-- The op names a message of the account's on the destination. -/
theorem reaches_named (deletes : Deletes p op) (message : ev.msgId = p.live.msgId)
    (account : ev.accountId = p.live.accountId) (profile : ev.profileUuid = p.live.profileUuid) :
    reaches (redactionOf p.dest op) p.dest ev = true := by
  -- a channel-wide event counts as one of the destination it is moderated on
  have on : (if ev.profileUuid = "" ∧ ev.accountId = p.dest.accountId then p.dest
      else ⟨ev.accountId, ev.profileUuid⟩) = p.dest := by
    split
    · rfl
    · rw [account, profile]
      rfl
  simp only [reaches]
  rw [on, Redaction.matchesRow_iff]
  refine ⟨rfl, ?_, ?_, ?_⟩
  · show 0 < kHighestSeq
    decide
  · simp [redactionOf, Redaction.ofOp, Redaction.reachesTs, deletes.untimed]
  · simp [redactionOf, Redaction.ofOp, Redaction.names, deletes.action, deletes.msgId, message, p.named]

variable {l : NormalizedEvent}

theorem reaches_live (deletes : Deletes p op) (live : Worded p.live l) :
    reaches (redactionOf p.dest op) p.dest l = true := by
  rw [live.same]
  exact reaches_named deletes rfl rfl rfl

/-- The REST copy has no message id for the op to name. -/
theorem not_reaches_rest (deletes : Deletes p op) {r : NormalizedEvent} (rest : Worded p.rest r) :
    reaches (redactionOf p.dest op) p.dest r = false := by
  have other : r.msgId ≠ p.live.msgId := by
    rw [rest.same, p.unnamed]
    exact p.named.symm
  rw [← Bool.not_eq_true]
  intro reached
  simp only [reaches] at reached
  rw [Redaction.matchesRow_iff] at reached
  have names := reached.2.2.2
  simp [redactionOf, Redaction.ofOp, Redaction.names, deletes.action, deletes.msgId, other] at names

/-! ### The tail of the store -/

/-- Not a copy of the purchase, nor named by the Delete. -/
def Foreign (p : Purchase) (op : ModerationOp) (ev : NormalizedEvent) : Prop :=
  ev.id ≠ p.live.id ∧ ev.id ≠ p.rest.id ∧ reaches (redactionOf p.dest op) p.dest ev = false

/-- The copies stand behind everything else. -/
def Ends (p : Purchase) (op : ModerationOp) (store : EventStore) (copies : List NormalizedEvent) : Prop :=
  ∃ others, store.events = others ++ copies ∧ ∀ ev ∈ others, Foreign p op ev

variable {store : EventStore} {copies : List NormalizedEvent}

theorem capped_append_append (others copies : List NormalizedEvent) (few : copies.length ≤ kCap) :
    ∃ n, capped (others ++ copies) = others.drop n ++ copies := by
  refine ⟨(others ++ copies).length - kCap, ?_⟩
  simp only [capped]
  rw [List.drop_append_of_le_length]
  simp only [List.length_append]
  omega

/-- A copy that is not stored yet joins behind. -/
theorem Ends.add_fresh (ends : Ends p op store copies) (few : copies.length ≤ 1) (named : ev.id ≠ "")
    (fresh : store.contains ev.id = false) (now : UInt64) : Ends p op (store.add ev now).1 (copies ++ [ev]) := by
  obtain ⟨others, shape, foreign⟩ := ends
  have grown : (store.add ev now).1.events = capped (store.events ++ [ev]) := by
    simp only [add, named, if_false, fresh, Bool.false_eq_true, apply_ite EventStore.events, snapshot, ite_self]
  have room : (copies ++ [ev]).length ≤ kCap := by
    have cap : kCap = 500 := rfl
    simp only [List.length_append, List.length_singleton]
    omega
  obtain ⟨n, cut⟩ := capped_append_append others (copies ++ [ev]) room
  refine ⟨others.drop n, ?_, fun old member => foreign old ((List.drop_sublist n others).subset member)⟩
  rw [grown, shape, List.append_assoc, cut]

theorem updateFirst_append {found : NormalizedEvent → Bool} {change : NormalizedEvent → NormalizedEvent}
    {others : List NormalizedEvent} (none : ∀ ev ∈ others, found ev = false)
    (here : found c = true) : updateFirst found change (others ++ [c]) = others ++ [change c] := by
  induction others with
  | nil => simp [updateFirst, here]
  | cons ev rest ih =>
    have away := none ev List.mem_cons_self
    simp [updateFirst, away, ih fun old member => none old (List.mem_cons_of_mem _ member)]

/-- A duplicate of the one copy stored gives it what it lacks. -/
theorem Ends.add_duplicate (ends : Ends p op store [c]) (named : ev.id ≠ "")
    (id : c.id = ev.id) (copy : ev.id = p.live.id ∨ ev.id = p.rest.id) (account : c.accountId = ev.accountId)
    (now : UInt64) : Ends p op (store.add ev now).1 [adoptFrom ev c] := by
  obtain ⟨others, shape, foreign⟩ := ends
  have away : ∀ old ∈ others, (old.id == ev.id) = false := by
    intro old member
    obtain ⟨notLive, notRest, -⟩ := foreign old member
    rcases copy with same | same <;> simpa [same]
  have held : store.contains ev.id = true := by simp [contains, shape, id]
  have found : (store.events.find? fun old => old.id == ev.id) = some c := by
    rw [shape, List.find?_append, List.find?_eq_none.mpr fun old member => by simp [away old member]]
    simp [id]
  refine ⟨others, ?_, foreign⟩
  simp only [add, named, if_false, held, if_true, adoptIdentity, found]
  split
  next kept =>
    have unchanged := kept.resolve_left (by simp [account])
    rw [unchanged, shape]
  · show updateFirst _ _ store.events = _
    rw [shape, updateFirst_append away (by simp [id])]

theorem Ends.redact (ends : Ends p op store copies) (found : NormalizedEvent → Bool) (mark : String) (now : UInt64) :
    Ends p op (store.redactMessages found mark now) (copies.map (redactEvent found mark)) := by
  obtain ⟨others, shape, foreign⟩ := ends
  refine ⟨others.map (redactEvent found mark), by rw [redactMessages_events, shape, List.map_append], fun ev member => ?_⟩
  obtain ⟨old, held, rfl⟩ := List.mem_map.mp member
  have kept := foreign old held
  simp only [EventStore.redactEvent]
  split <;> exact kept

theorem Ends.silenced_iff (ends : Ends p op hub.store copies)
    (ids : ∀ c ∈ copies, c.id = p.live.id ∨ c.id = p.rest.id) : Silenced p hub ↔ ∀ c ∈ copies, c.message = "" := by
  obtain ⟨others, shape, foreign⟩ := ends
  constructor
  · intro silenced c member
    exact silenced c (by simp [shape, member]) (ids c member)
  · intro silent ev member copy
    rw [shape] at member
    rcases List.mem_append.mp member with other | here
    · obtain ⟨notLive, notRest, -⟩ := foreign ev other
      exact (copy.elim notLive notRest).elim
    · exact silent ev here

theorem Ends.contains_eq_false (ends : Ends p op store copies) {id : String} (copy : id = p.live.id ∨ id = p.rest.id)
    (absent : ∀ c ∈ copies, c.id ≠ id) : store.contains id = false := by
  obtain ⟨others, shape, foreign⟩ := ends
  simp only [contains, List.any_eq_false, beq_iff_eq]
  intro ev member
  rw [shape] at member
  rcases List.mem_append.mp member with other | here
  · obtain ⟨notLive, notRest, -⟩ := foreign ev other
    rcases copy with rfl | rfl
    · exact notLive
    · exact notRest
  · exact absent ev here

/-! ### The acts -/

variable {ms : Act → Int} {ns : Act → UInt64}

theorem Ends.admit_fresh (ends : Ends p op hub.store copies) (few : copies.length ≤ 1) (named : ev.id ≠ "")
    (fresh : hub.store.contains ev.id = false) (nowMs : Int) (now : UInt64) :
    Ends p op (hub.admitEvent ev ev.accountId nowMs now).1.store (copies ++ [scrub hub.removals hub.store ev nowMs]) := by
  have id : (scrub hub.removals hub.store ev nowMs).id = ev.id := by
    rw [(scrub_worded hub.removals hub.store ev nowMs).same]
  have stamped : (if ev.accountId = "" then { ev with accountId := ev.accountId } else ev) = ev := by
    split <;> rfl
  simp only [EventHub.admitEvent, stamped, fresh, named, ne_eq, not_false_eq_true, and_self, if_true]
  exact ends.add_fresh few (id ▸ named) (id ▸ fresh) now

theorem Ends.admit_duplicate (ends : Ends p op hub.store [c]) (named : ev.id ≠ "")
    (id : c.id = ev.id) (copy : ev.id = p.live.id ∨ ev.id = p.rest.id) (account : c.accountId = ev.accountId)
    (nowMs : Int) (now : UInt64) : Ends p op (hub.admitEvent ev ev.accountId nowMs now).1.store [adoptFrom ev c] := by
  have held : hub.store.contains ev.id = true := by
    obtain ⟨others, shape, -⟩ := ends
    simp [contains, shape, id]
  have stamped : (if ev.accountId = "" then { ev with accountId := ev.accountId } else ev) = ev := by
    split <;> rfl
  simp only [EventHub.admitEvent, stamped, held, Bool.true_eq_false, and_false, if_false]
  exact ends.add_duplicate named id copy account now

/-- The removal a Delete leaves behind. -/
theorem remember_delete (deletes : Deletes p op) (removals : List Removal) (seenMs : Int) :
    ⟨p.dest, redactionOf p.dest op, seenMs⟩ ∈ remember removals p.dest op seenMs := by
  -- what was remembered just now is never the one that has expired
  have last : ∀ (old : List Removal) (r : Removal), r.seenMs = seenMs → r ∈ keepRecent seenMs (old ++ [r]) := by
    intro old r seen
    induction old with
    | nil =>
      rw [List.nil_append, keepRecent, if_neg]
      · exact List.mem_singleton_self r
      · rw [seen, Int.sub_self]
        decide
    | cons front rest ih =>
      rw [List.cons_append, keepRecent]
      split
      · exact ih
      · simp
  simp only [remember, deletes.action, reduceCtorEq, if_false, false_and]
  exact last _ _ rfl

/-- With no copy it names the Delete leaves the store as it is. -/
theorem Ends.delete_unnamed (ends : Ends p op hub.store copies) (deletes : Deletes p op)
    (unnamed : ∀ c ∈ copies, reaches (redactionOf p.dest op) p.dest c = false) (nowMs : Int) (now : UInt64) :
    (hub.applyModeration p.dest op nowMs now).store = hub.store := by
  obtain ⟨others, shape, foreign⟩ := ends
  have none : hub.store.select (reaches (redactionOf p.dest op) p.dest) = [] := by
    rw [EventStore.select, List.filter_eq_nil_iff, shape]
    intro ev member
    rcases List.mem_append.mp member with other | here
    · simp [(foreign ev other).2.2]
    · simp [unnamed ev here]
  simp [EventHub.applyModeration, redactModeratedEvents, deletes.action, none]

/-- Where it names a copy, that copy and those of the same purchase lose their words. -/
theorem Ends.delete_named (ends : Ends p op hub.store copies) (deletes : Deletes p op)
    (member : l ∈ copies) (named : reaches (redactionOf p.dest op) p.dest l = true) (nowMs : Int) (now : UInt64) :
    Ends p op (hub.applyModeration p.dest op nowMs now).store (copies.map
      (redactEvent (deleteReaches hub.store (redactionOf p.dest op) p.dest) (deletedMark op.action))) ∧
    ∀ c, c = l ∨ samePurchase l c = true → deleteReaches hub.store (redactionOf p.dest op) p.dest c = true := by
  have chosen : l ∈ hub.store.select (reaches (redactionOf p.dest op) p.dest) := by
    obtain ⟨others, shape, -⟩ := ends
    rw [EventStore.select, List.mem_filter, shape]
    exact ⟨List.mem_append_right _ member, named⟩
  have some : (hub.store.select (reaches (redactionOf p.dest op) p.dest)).isEmpty = false := by
    rw [List.isEmpty_eq_false_iff]
    exact List.ne_nil_of_mem chosen
  constructor
  · have redacts := ends.redact (deleteReaches hub.store (redactionOf p.dest op) p.dest) (deletedMark op.action) now
    simpa [EventHub.applyModeration, redactModeratedEvents, deletes.action, some] using redacts
  · rintro c (rfl | same)
    · simp [deleteReaches, named]
    · simp only [deleteReaches, Bool.or_eq_true, List.any_eq_true]
      exact .inr ⟨l, chosen, same⟩

/-! ### The orders -/

theorem Worded.id (worded : Worded base c) : c.id = base.id := by rw [worded.same]

theorem Worded.marked (worded : Worded base c) (text : base.message ≠ "") (silent : c.message = "") : c.deleted ≠ "" := by
  rcases worded.words with own | ⟨-, marked⟩
  · exact absurd (own ▸ silent) text
  · exact marked

/-- The Delete comes last, with a copy it names stored and the others of the same purchase. -/
theorem Ends.silenced_delete (ends : Ends p op hub.store copies) (deletes : Deletes p op)
    (member : l ∈ copies) (named : reaches (redactionOf p.dest op) p.dest l = true)
    (same : ∀ c ∈ copies, c = l ∨ samePurchase l c = true)
    (ids : ∀ c ∈ copies, c.id = p.live.id ∨ c.id = p.rest.id) : Silenced p (hub.act p op ms ns .delete) := by
  obtain ⟨after, reached⟩ := ends.delete_named deletes member named (ms .delete) (ns .delete)
  rw [EventHub.act, after.silenced_iff]
  · intro c moved
    obtain ⟨old, held, rfl⟩ := List.mem_map.mp moved
    exact redactEvent_silent (reached old (same old held))
  · intro c moved
    obtain ⟨old, held, rfl⟩ := List.mem_map.mp moved
    have id : (redactEvent (deleteReaches hub.store (redactionOf p.dest op) p.dest) (deletedMark op.action) old).id
        = old.id := by
      simp only [EventStore.redactEvent]
      split <;> rfl
    rw [id]
    exact ids old held

/-- The live copy is stored without words: so is what the REST copy comes to. -/
theorem Ends.silenced_rest (ends : Ends p op hub.store [l]) (live : Worded p.live l)
    (silent : l.message = "") (ms : Act → Int) (ns : Act → UInt64) : Silenced p (hub.act p op ms ns .rest) := by
  rw [EventHub.act]
  -- under one id the copy only adopts what the live one lacks
  by_cases same : p.rest.id = p.live.id
  · have account : l.accountId = p.rest.accountId := by rw [live.same, p.account]
    have after := ends.admit_duplicate p.restId (live.id.trans same.symm) (.inr rfl) account (ms .rest) (ns .rest)
    rw [after.silenced_iff (by simp [adoptFrom, live.id])]
    simpa [adoptFrom] using silent
  · have fresh := ends.contains_eq_false (.inr rfl) (by simpa [live.id] using Ne.symm same)
    have after := ends.admit_fresh (by simp) p.restId fresh (ms .rest) (ns .rest)
    have member : l ∈ hub.store.events := by
      obtain ⟨others, shape, -⟩ := ends
      simp [shape]
    have twin := samePurchase_copies live (.refl p.rest) same
    have scrubbed := scrub_silent (scrubMark_of_twin member (live.marked p.liveText silent) twin p.unnamed
      hub.removals (ms .rest))
    rw [after.silenced_iff (by simp [live.id, (scrub_worded hub.removals hub.store p.rest (ms .rest)).id])]
    simp [silent, scrubbed]

/-- The live copy comes last: nothing takes the words of the REST copy. -/
theorem Ends.silenced_live {r : NormalizedEvent} (ends : Ends p op hub.store [r]) (rest : Worded p.rest r)
    (deletes : Deletes p op) (removed : ⟨p.dest, redactionOf p.dest op, ms .delete⟩ ∈ hub.removals)
    (recent : ms .live - ms .delete ≤ kKeepMs) (ns : Act → UInt64) : Silenced p (hub.act p op ms ns .live) ↔ r.message = "" := by
  rw [EventHub.act]
  -- a duplicate is never scrubbed, and a scrubbed live copy is not looked at for others
  by_cases same : p.rest.id = p.live.id
  · have account : r.accountId = p.live.accountId := by rw [rest.same, p.account]
    have after := ends.admit_duplicate p.liveId (rest.id.trans same) (.inl rfl) account (ms .live) (ns .live)
    rw [after.silenced_iff (by simp [adoptFrom, rest.id])]
    simp [adoptFrom]
  · have fresh := ends.contains_eq_false (.inl rfl) (by simpa [rest.id] using same)
    have after := ends.admit_fresh (by simp) p.liveId fresh (ms .live) (ns .live)
    have scrubbed := scrub_silent (scrubMark_of_removal removed recent (reaches_live deletes (.refl p.live)) hub.store)
    rw [after.silenced_iff (by simp [rest.id, (scrub_worded hub.removals hub.store p.live (ms .live)).id])]
    simp [scrubbed]

section

variable (ends : Ends p op hub.store [])
include ends

/-- The first copy to come, before anything of the purchase is stored. -/
theorem Ends.first_live (ms : Act → Int) (ns : Act → UInt64) :
    Ends p op (hub.act p op ms ns .live).store [scrub hub.removals hub.store p.live (ms .live)] :=
  ends.admit_fresh (by simp) p.liveId (ends.contains_eq_false (.inl rfl) (by simp)) (ms .live) (ns .live)

theorem Ends.first_rest (ms : Act → Int) (ns : Act → UInt64) :
    Ends p op (hub.act p op ms ns .rest).store [scrub hub.removals hub.store p.rest (ms .rest)] :=
  ends.admit_fresh (by simp) p.restId (ends.contains_eq_false (.inr rfl) (by simp)) (ms .rest) (ns .rest)

/-- Both copies stored and then the Delete: under one id the copy takes the live one's
identity, under two the REST copy is the live one's purchase. -/
theorem Ends.silenced_live_rest_delete (deletes : Deletes p op) :
    Silenced p (((hub.act p op ms ns .live).act p op ms ns .rest).act p op ms ns .delete) := by
  have first := ends.first_live ms ns
  have live := scrub_worded hub.removals hub.store p.live (ms .live)
  generalize hub.act p op ms ns .live = hub₁ at first ⊢
  generalize scrub hub.removals hub.store p.live (ms .live) = l at first live
  by_cases same : p.rest.id = p.live.id
  · have account : l.accountId = p.rest.accountId := by rw [live.same, p.account]
    have second := first.admit_duplicate p.restId (live.id.trans same.symm) (.inr rfl) account (ms .rest) (ns .rest)
    have kept : reaches (redactionOf p.dest op) p.dest (adoptFrom p.rest l) = true := by
      rw [live.same]
      apply reaches_named deletes
      · simp [adoptFrom, adopt, p.named]
      · rfl
      · simp [adoptFrom, adopt, p.channelWide]
    exact second.silenced_delete deletes (List.mem_singleton_self _) kept (by simp) (by simp [adoptFrom, live.id])
  · have fresh := first.contains_eq_false (.inr rfl) (by simpa [live.id] using Ne.symm same)
    have second := first.admit_fresh (by simp) p.restId fresh (ms .rest) (ns .rest)
    have rest := scrub_worded hub₁.removals hub₁.store p.rest (ms .rest)
    apply second.silenced_delete deletes (by simp) (reaches_live deletes live)
    · simp [samePurchase_copies live rest same]
    · simp [live.id, rest.id]

theorem Ends.silenced_rest_live_delete (deletes : Deletes p op) :
    Silenced p (((hub.act p op ms ns .rest).act p op ms ns .live).act p op ms ns .delete) := by
  have first := ends.first_rest ms ns
  have rest := scrub_worded hub.removals hub.store p.rest (ms .rest)
  generalize hub.act p op ms ns .rest = hub₁ at first ⊢
  generalize scrub hub.removals hub.store p.rest (ms .rest) = r at first rest
  by_cases same : p.rest.id = p.live.id
  · have account : r.accountId = p.live.accountId := by rw [rest.same, p.account]
    have second := first.admit_duplicate p.liveId (rest.id.trans same) (.inl rfl) account (ms .live) (ns .live)
    have taken : reaches (redactionOf p.dest op) p.dest (adoptFrom p.live r) = true := by
      rw [rest.same]
      apply reaches_named deletes
      · simp [adoptFrom, adopt, p.unnamed]
      · exact p.account
      · simp [adoptFrom, adopt, p.channelWide]
    exact second.silenced_delete deletes (List.mem_singleton_self _) taken (by simp) (by simp [adoptFrom, rest.id])
  · have fresh := first.contains_eq_false (.inl rfl) (by simpa [rest.id] using same)
    have second := first.admit_fresh (by simp) p.liveId fresh (ms .live) (ns .live)
    have live := scrub_worded hub₁.removals hub₁.store p.live (ms .live)
    apply second.silenced_delete deletes (by simp) (reaches_live deletes live)
    · simp [samePurchase_copies live rest same]
    · simp [live.id, rest.id]

end

theorem Fresh.ends (fresh : Fresh p op hub) : Ends p op hub.store [] := ⟨hub.store.events, by simp, fresh⟩

theorem perm_cases {order : List Act} (perm : order.Perm [.live, .rest, .delete]) :
    order = [.live, .rest, .delete] ∨ order = [.rest, .live, .delete] ∨ order = [.live, .delete, .rest] ∨
      order = [.delete, .live, .rest] ∨ order = [.rest, .delete, .live] ∨ order = [.delete, .rest, .live] := by
  obtain ⟨a, b, c, rfl⟩ := List.length_eq_three.mp perm.length_eq
  have nodup := perm.nodup_iff.mpr (by decide)
  cases a <;> cases b <;> cases c <;> simp at nodup ⊢

/-- No copy keeps its words unless the live copy comes last, and then only where nothing
removed earlier reaches the REST copy. -/
theorem delete_reaches_copies_iff (p : Purchase) {op : ModerationOp} (deletes : Deletes p op) {hub : EventHub}
    (fresh : Fresh p op hub) (ms : Act → Int) (ns : Act → UInt64)
    (recent : ms .live - ms .delete ≤ kKeepMs) {order : List Act} (perm : order.Perm [.live, .rest, .delete]) :
    Silenced p (hub.acts p op ms ns order) ↔
      order.getLast? ≠ some .live ∨
        Forewarned (hub.acts p op ms ns (order.takeWhile (· ≠ .rest))) p.rest (ms .rest) := by
  have ends := fresh.ends
  have removed := remember_delete deletes hub.removals (ms .delete)
  have empty := ends.delete_unnamed deletes (by simp) (ms .delete) (ns .delete)
  have ends' : Ends p op (hub.act p op ms ns .delete).store [] := by rwa [EventHub.act, empty]
  rcases perm_cases perm with rfl | rfl | rfl | rfl | rfl | rfl
  · simp [EventHub.acts, ends.silenced_live_rest_delete deletes]
  · simp [EventHub.acts, ends.silenced_rest_live_delete deletes]
  · -- the Delete takes the live copy's words, and their loss the REST copy's
    have live := scrub_worded hub.removals hub.store p.live (ms .live)
    have first := ends.first_live ms ns
    obtain ⟨after, reached⟩ := first.delete_named deletes (List.mem_singleton_self _) (reaches_live deletes live)
      (ms .delete) (ns .delete)
    have silenced := after.silenced_rest
      (live.redactEvent _ (deletedMark_ne op.action)) (redactEvent_silent (reached _ (.inl rfl))) ms ns
    simp only [EventHub.acts, List.foldl_cons, List.foldl_nil]
    exact iff_of_true silenced (by simp)
  · -- the remembered Delete takes them at admission
    have live := scrub_worded (hub.act p op ms ns .delete).removals (hub.act p op ms ns .delete).store p.live (ms .live)
    have silent := scrub_silent (scrubMark_of_removal removed recent (reaches_live deletes (.refl p.live))
      (hub.act p op ms ns .delete).store)
    have silenced := (ends'.first_live ms ns).silenced_rest live silent ms ns
    simp only [EventHub.acts, List.foldl_cons, List.foldl_nil]
    exact iff_of_true silenced (by simp)
  -- the Delete finds nothing it names, and the live copy comes after it
  · have rest := scrub_worded hub.removals hub.store p.rest (ms .rest)
    have first := ends.first_rest ms ns
    have kept := first.delete_unnamed deletes (by simpa using not_reaches_rest deletes rest) (ms .delete) (ns .delete)
    have second : Ends p op ((hub.act p op ms ns .rest).act p op ms ns .delete).store
        [scrub hub.removals hub.store p.rest (ms .rest)] := by
      show Ends p op ((hub.act p op ms ns .rest).applyModeration p.dest op (ms .delete) (ns .delete)).store _
      rwa [kept]
    have silenced := second.silenced_live rest deletes removed recent ns
    simp only [EventHub.acts, List.foldl_cons, List.foldl_nil]
    rw [silenced, scrub_silent_iff p.restText p.unnamed]
    simp
  -- the remembered Delete does not name the REST copy, and reaches only the live one at admission
  · have first := ends'.first_rest ms ns
    have rest := scrub_worded (hub.act p op ms ns .delete).removals (hub.act p op ms ns .delete).store p.rest (ms .rest)
    have silenced := first.silenced_live rest deletes removed recent ns
    simp only [EventHub.acts, List.foldl_cons, List.foldl_nil]
    rw [silenced, scrub_silent_iff p.restText p.unnamed]
    simp

/-- A Super Chat of the live chat and of the poll, a second apart. -/
def superChat (liveId restId : String) (named : liveId ≠ "" ∧ restId ≠ "") : Purchase where
  live := { id := liveId, platform := "youtube", type := "superchat", ts := 1000, accountId := "acct",
            profileUuid := "stream", amount := 500, message := "words", msgId := "msg", authorId := "viewer" }
  rest := { id := restId, platform := "youtube", type := "superchat", ts := 2000, accountId := "acct", amount := 500,
            message := "words", authorId := "viewer" }
  liveId := named.1
  restId := named.2
  liveText := by simp
  restText := by simp
  named := by simp
  viewed := by simp
  unnamed := rfl
  channelWide := rfl
  author := rfl
  account := rfl
  platform := rfl
  type := rfl
  amount := rfl
  skew := by simp [kSamePurchaseSkewMs]

def superChatDelete : ModerationOp := { dest := ⟨"acct", "stream"⟩, msgId := "msg" }

/-- A hub that has seen nothing. -/
def newHub : EventHub := ⟨load ⟨none, none⟩, []⟩

theorem newHub_events : newHub.store.events = [] := by decide

/-- The poll's copy after the live one and the Delete: nothing keeps the words. -/
theorem delete_reaches_copies_polled :
    Silenced (superChat "live" "rest" (by decide))
      (newHub.acts (superChat "live" "rest" (by decide)) superChatDelete (fun _ => 0) (fun _ => 0)
        [.live, .delete, .rest]) :=
  (delete_reaches_copies_iff (superChat "live" "rest" (by decide)) ⟨rfl, rfl, rfl⟩
    (by simp [Fresh, newHub_events]) _ _ (by decide) (by decide)).mpr (.inl (by decide))

/-- The poll's copy, the Delete and then the live copy: the words of the poll's stay, under
another id and under the same. -/
theorem delete_misses_rest_copy :
    (∀ liveId restId named, Deletes (superChat liveId restId named) superChatDelete) ∧
    ¬ Silenced (superChat "live" "rest" (by decide))
        (newHub.acts (superChat "live" "rest" (by decide)) superChatDelete (fun _ => 0) (fun _ => 0)
          [.rest, .delete, .live]) ∧
    ¬ Silenced (superChat "paid" "paid" (by decide))
        (newHub.acts (superChat "paid" "paid" (by decide)) superChatDelete (fun _ => 0) (fun _ => 0)
          [.rest, .delete, .live]) := by
  refine ⟨fun _ _ _ => ⟨rfl, rfl, rfl⟩, ?_⟩
  simp only [Silenced]
  decide

end Braidcast.Events
