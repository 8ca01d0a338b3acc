import Braidcast.Lib.Keyed
import Braidcast.Overlay.SoundCache

/-!
# The budget of the sounds

What holds of the cache and the chain at any time: which link an entry waits for, that only the entry being
decoded is spared by a pass, and so what a pass leaves.
-/
namespace Braidcast.Overlay

open Lib

namespace SoundPage

variable {s : SoundPage} {url : String} {e place : Nat} {link : DecodeLink}

/-! ### Looking up -/

theorem mem_of_get (hit : s.get url = some e) : (url, e) ∈ s.soundCache := by
  obtain ⟨item, found, rfl⟩ := Option.map_eq_some_iff.mp hit
  have keyed : item.1 = url := by simpa using List.find?_some found
  rw [← keyed]
  exact List.mem_of_find?_eq_some found

theorem not_mem_of_get (miss : s.get url = none) : url ∉ s.soundCache.map Prod.fst := by
  intro member
  obtain ⟨item, there, keyed⟩ := List.mem_map.mp member
  exact List.find?_eq_none.mp (Option.map_eq_none_iff.mp miss) item there (decide_eq_true keyed)

theorem get_of_mem (urls : (s.soundCache.map Prod.fst).Nodup) (member : (url, e) ∈ s.soundCache) : s.get url = some e :=
  congrArg (Option.map Prod.snd) (find?_key_eq_some urls member)

/-! ### The invariant -/

/-- What holds of the cache and the chain between two steps, its size apart. -/
structure Chained (s : SoundPage) : Prop where
  urls : (s.soundCache.map Prod.fst).Nodup
  ids : (s.soundCache.map Prod.snd).Nodup
  made : ∀ item ∈ s.soundCache, item.2 < s.made
  known : ∀ link ∈ s.decodeChain, link.entry < s.made
  sound : ∀ e, (s.entries e).Sound
  /-- The link of a cached entry is still to settle. -/
  awaited : ∀ item ∈ s.soundCache, ∀ place, (s.entries item.2).decode = some place →
    ∃ link : DecodeLink, s.decodeChain[place]? = some link ∧ (link.url, link.entry) = item ∧ link.phase ≠ .settled
  pending : ∀ (place : Nat) (link : DecodeLink), s.decodeChain[place]? = some link → link.phase ≠ .settled → (link.url, link.entry) ∈ s.soundCache →
    (s.entries link.entry).decode = some place
  running : ∀ (place : Nat) (link : DecodeLink), s.decodeChain[place]? = some link → link.phase = .running →
    s.decodingEntry = some link.entry ∧ (link.url, link.entry) ∈ s.soundCache
  decoding : ∀ e, s.decodingEntry = some e → ∃ (place : Nat) (link : DecodeLink), s.decodeChain[place]? = some link ∧ link.phase = .running ∧ link.entry = e
  ordered : ∀ (before place : Nat) (link : DecodeLink), before < place → s.decodeChain[place]? = some link → link.phase ≠ .queued → s.InPhase before .settled

structure Budgeted (s : SoundPage) : Prop extends Chained s where
  bounded : s.soundCache.length ≤ kMaxSoundEntries + 1
  budget : s.retained ≤ kMaxDecodedSoundBytes

theorem Budgeted.new : Budgeted {} where
  urls := List.nodup_nil
  ids := List.nodup_nil
  made := fun _ member => nomatch member
  known := fun _ member => nomatch member
  sound := fun _ => SoundEntry.sound_new
  awaited := fun _ member => nomatch member
  pending := fun _ _ there => nomatch there
  running := fun _ _ there => nomatch there
  decoding := fun _ decoding => nomatch decoding
  ordered := fun _ _ _ _ there => nomatch there
  bounded := Nat.zero_le _
  budget := Nat.zero_le _

/-- Items are taken out of the cache or moved about in it, but not the one being decoded. -/
theorem Chained.recache (chained : Chained s) {cache : List (String × Nat)} (urls : (cache.map Prod.fst).Nodup)
    (ids : (cache.map Prod.snd).Nodup) (subset : cache ⊆ s.soundCache)
    (spared : ∀ item ∈ s.soundCache, some item.2 = s.decodingEntry → item ∈ cache) : Chained { s with soundCache := cache } where
  urls := urls
  ids := ids
  made := fun item member => chained.made item (subset member)
  known := chained.known
  sound := chained.sound
  awaited := fun item member => chained.awaited item (subset member)
  pending := fun place link there left member => chained.pending place link there left (subset member)
  running := by
    intro place link there running
    obtain ⟨decoding, member⟩ := chained.running place link there running
    exact ⟨decoding, spared _ member decoding.symm⟩
  decoding := chained.decoding
  ordered := chained.ordered

/-- What is being decoded holds nothing yet. -/
theorem Chained.bytes_decoding (chained : Chained s) (decoding : s.decodingEntry = some e) : (s.entries e).bytes = 0 := by
  obtain ⟨place, link, there, running, rfl⟩ := chained.decoding e decoding
  have member := (chained.running place link there running).2
  have unsettled : link.phase ≠ .settled := by
    rw [running]
    decide
  have sound := chained.sound link.entry
  refine sound.unset (sound.pending ?_).1
  rw [chained.pending place link there unsettled member]
  exact Option.some_ne_none place

theorem length_le_one {items : List (String × Nat)} (ids : (items.map Prod.snd).Nodup) (same : ∀ item ∈ items, item.2 = e) :
    items.length ≤ 1 := by
  match items with
  | [] => exact Nat.zero_le 1
  | [_] => exact Nat.le_refl 1
  | first :: second :: rest =>
    have apart := (List.nodup_cons.mp ids).1
    rw [same first List.mem_cons_self] at apart
    have second_same := same second (List.mem_cons_of_mem _ List.mem_cons_self)
    exact absurd (List.mem_map.mpr ⟨second, List.mem_cons_self, second_same⟩) apart

/-- A pass leaves both bounds met: all that it spares is one entry, with no bytes. -/
theorem Chained.enforced (chained : Chained s) : Chained s.enforceSoundBudget ∧
    s.enforceSoundBudget.soundCache.length ≤ kMaxSoundEntries ∧ s.enforceSoundBudget.retained ≤ kMaxDecodedSoundBytes := by
  have sublist : s.enforceSoundBudget.soundCache.Sublist s.soundCache := evict_sublist ..
  have urls := (sublist.map Prod.fst).nodup chained.urls
  have ids := (sublist.map Prod.snd).nodup chained.ids
  refine ⟨chained.recache urls ids sublist.subset ?_, ?_⟩
  · intro item member spared
    exact mem_evict_of_exempt member (decide_eq_true spared)
  -- the pass stops when both bounds are met, or when only spared entries are left
  · rcases evict_fits [] s.soundCache with fits | exempt
    · exact ⟨fits.2, fits.1⟩
    · cases decoding : s.decodingEntry with
      | none =>
        have empty : s.enforceSoundBudget.soundCache = [] := by
          refine List.eq_nil_iff_forall_not_mem.mpr fun item member => ?_
          have spared := of_decide_eq_true (exempt item member)
          rw [decoding] at spared
          cases spared
        rw [retained, empty]
        exact ⟨Nat.zero_le _, Nat.zero_le _⟩
      | some e =>
        have same : ∀ item ∈ s.enforceSoundBudget.soundCache, item.2 = e := by
          intro item member
          have spared := of_decide_eq_true (exempt item member)
          rw [decoding] at spared
          exact Option.some.inj spared
        have nothing : s.enforceSoundBudget.retained = 0 := by
          refine totalSize_eq_zero fun item member => ?_
          rw [bytesOf, same item member]
          exact chained.bytes_decoding decoding
        rw [nothing]
        exact ⟨Nat.le_trans (length_le_one ids same) (by decide), Nat.zero_le _⟩

/-! ### Calls -/

theorem entries_insertEntry (s : SoundPage) (url : String) (other : Nat) :
    (s.insertEntry url).entries other = if other = s.made then {} else s.entries other := by
  rw [insertEntry]
  exact Function.update_apply ..

theorem Chained.entries_old (chained : Chained s) {item : String × Nat} (member : item ∈ s.soundCache) (url : String) :
    (s.insertEntry url).entries item.2 = s.entries item.2 := by
  rw [entries_insertEntry, if_neg (Nat.ne_of_lt (chained.made item member))]

/-- A new entry waits for nothing, and no link is for it. -/
theorem Chained.insertEntry (chained : Chained s) (absent : url ∉ s.soundCache.map Prod.fst) : Chained (s.insertEntry url) where
  urls := nodup_map_concat chained.urls absent
  ids := by
    refine nodup_map_concat chained.ids fun member => ?_
    obtain ⟨item, there, taken⟩ := List.mem_map.mp member
    exact absurd taken (Nat.ne_of_lt (chained.made item there))
  made := by
    intro item member
    rcases List.mem_append.mp member with there | new
    · exact Nat.lt_succ_of_lt (chained.made item there)
    · rw [List.mem_singleton.mp new]
      exact Nat.lt_succ_self s.made
  known := fun link member => Nat.lt_succ_of_lt (chained.known link member)
  sound := by
    intro other
    rw [entries_insertEntry]
    split
    · exact SoundEntry.sound_new
    · exact chained.sound other
  awaited := by
    intro item member place waits
    rcases List.mem_append.mp member with there | new
    · rw [chained.entries_old there] at waits
      exact chained.awaited item there place waits
    · rw [List.mem_singleton.mp new, entries_insertEntry, if_pos rfl] at waits
      cases waits
  pending := by
    intro place link there left member
    have below := Nat.ne_of_lt (chained.known link (List.mem_of_getElem? there))
    rcases List.mem_append.mp member with cached | new
    · rw [entries_insertEntry, if_neg below]
      exact chained.pending place link there left cached
    · exact absurd (Prod.mk.inj (List.mem_singleton.mp new)).2 below
  running := by
    intro place link there running
    obtain ⟨decoding, member⟩ := chained.running place link there running
    exact ⟨decoding, List.mem_append_left _ member⟩
  decoding := chained.decoding
  ordered := chained.ordered

theorem Chained.retained_insertEntry (chained : Chained s) (url : String) : (s.insertEntry url).retained = s.retained := by
  have old : totalSize (s.insertEntry url).bytesOf s.soundCache = s.retained :=
    totalSize_congr fun item member => congrArg SoundEntry.bytes (chained.entries_old member url)
  have new : (s.insertEntry url).bytesOf (url, s.made) = 0 := by rw [bytesOf, entries_insertEntry, if_pos rfl]
  show totalSize (s.insertEntry url).bytesOf (s.soundCache ++ [(url, s.made)]) = s.retained
  rw [totalSize_append, totalSize_cons, old, new]
  rfl

/-- An entry is found or made, and moved to the end. -/
theorem Budgeted.soundEntry (budgeted : Budgeted s) (url : String) :
    Budgeted (s.soundEntry url).1 ∧ (url, (s.soundEntry url).2) ∈ (s.soundEntry url).1.soundCache := by
  unfold SoundPage.soundEntry
  split
  -- a hit only moves the item to the end: the cache is a permutation of what it was
  next hit found =>
    obtain ⟨⟨key, id⟩, first, rfl⟩ := Option.map_eq_some_iff.mp found
    obtain rfl : key = url := by simpa using List.find?_some first
    have perm : (s.soundCache.eraseP (fun item => item.1 = key) ++ [(key, id)]).Perm s.soundCache :=
      List.perm_append_comm.trans (perm_cons_eraseP first).symm
    have chained := budgeted.toChained.recache ((perm.map Prod.fst).nodup_iff.mpr budgeted.urls) ((perm.map Prod.snd).nodup_iff.mpr budgeted.ids)
      perm.subset (fun item member _ => perm.mem_iff.mpr member)
    refine ⟨{ chained with bounded := ?_, budget := ?_ }, List.mem_append_right _ List.mem_cons_self⟩
    · exact perm.length_eq ▸ budgeted.bounded
    · exact (totalSize_perm perm).trans_le budgeted.budget
  next miss =>
    obtain ⟨chained, few, small⟩ := budgeted.enforced
    have absent : url ∉ s.enforceSoundBudget.soundCache.map Prod.fst := fun member =>
      not_mem_of_get miss (((evict_sublist ..).map Prod.fst).subset member)
    refine ⟨{ chained.insertEntry absent with bounded := ?_, budget := ?_ }, List.mem_append_right _ List.mem_cons_self⟩
    · show (s.enforceSoundBudget.soundCache ++ [(url, s.made)]).length ≤ kMaxSoundEntries + 1
      rw [List.length_append]
      exact Nat.succ_le_succ few
    · exact (chained.retained_insertEntry url).trans_le small

variable {entry : SoundEntry}

/-- An entry that waits for no link is set to another one. -/
theorem Chained.setEntry (chained : Chained s) (idle : (s.entries e).decode = none) (still : entry.decode = none)
    (sound : entry.Sound) : Chained (s.setEntry e entry) := by
  have decode (other : Nat) : ((s.setEntry e entry).entries other).decode = (s.entries other).decode := by
    show (Function.update s.entries e entry other).decode = _
    rw [Function.update_apply]
    split
    next same => rw [same, idle, still]
    next => rfl
  refine { chained with sound := ?sound, awaited := ?awaited, pending := ?pending }
  case sound =>
    intro other
    show (Function.update s.entries e entry other).Sound
    rw [Function.update_apply]
    split
    · exact sound
    · exact chained.sound other
  case awaited =>
    intro item member place waits
    rw [decode] at waits
    exact chained.awaited item member place waits
  case pending =>
    intro place link there left member
    rw [decode]
    exact chained.pending place link there left member

/-- The chain grows by a link that is not done before the others are. -/
theorem Chained.queueLink (chained : Chained s) (member : (url, e) ∈ s.soundCache) (idle : (s.entries e).waits = false) :
    Chained (s.queueLink url e) := by
  have decode (other : Nat) : ((s.queueLink url e).entries other).decode =
      if other = e then some s.decodeChain.length else (s.entries other).decode := by
    show (Function.update s.entries e _ other).decode = _
    rw [Function.update_apply]
    split
    · rfl
    · rfl
  have free := (SoundEntry.waits_eq_false.mp idle).2.1
  constructor
  case urls => exact chained.urls
  case ids => exact chained.ids
  case made => exact chained.made
  case known =>
    intro link there
    rcases List.mem_append.mp there with old | new
    · exact chained.known link old
    · rw [List.mem_singleton.mp new]
      exact chained.made _ member
  case sound =>
    intro other
    show (Function.update s.entries e _ other).Sound
    rw [Function.update_apply]
    split
    · exact (chained.sound e).queued idle _
    · exact chained.sound other
  case awaited =>
    intro item cached place waits
    rw [decode] at waits
    split at waits
    -- the entry that has just been queued is under this URL alone
    next same =>
      obtain rfl := Option.some.inj waits
      have one : item = (url, e) := List.inj_on_of_nodup_map chained.ids cached member same
      exact ⟨{ url, entry := e }, List.getElem?_concat_length, one.symm, LinkPhase.noConfusion⟩
    next =>
      obtain ⟨link, there, left⟩ := chained.awaited item cached place waits
      exact ⟨link, getElem?_append_old there, left⟩
  case pending =>
    intro place link there left cached
    rw [decode]
    rcases getElem?_append_new there with old | ⟨rfl, rfl⟩
    · -- a link that is left has its entry wait for it, and this one waited for none
      have waits := chained.pending place link old left cached
      have other : link.entry ≠ e := by
        rintro rfl
        cases free.symm.trans waits
      rw [if_neg other, waits]
    · exact if_pos rfl
  case running =>
    intro place link there running
    rcases getElem?_append_new there with old | ⟨-, rfl⟩
    · exact chained.running place link old running
    · cases running
  case decoding =>
    intro other decoding
    obtain ⟨place, link, there, running⟩ := chained.decoding other decoding
    exact ⟨place, link, getElem?_append_old there, running⟩
  case ordered =>
    intro before place link earlier there begun
    rcases getElem?_append_new there with old | ⟨-, rfl⟩
    · obtain ⟨first, there, settled⟩ := chained.ordered before place link earlier old begun
      exact ⟨first, getElem?_append_old there, settled⟩
    · exact absurd rfl begun

theorem retained_setEntry (same : entry.bytes = (s.entries e).bytes) : (s.setEntry e entry).retained = s.retained := by
  refine totalSize_congr fun item _ => ?_
  show (Function.update s.entries e entry item.2).bytes = _
  rw [Function.update_apply]
  split
  next here => rw [bytesOf, here, same]
  next => rfl

theorem retained_queueLink : (s.queueLink url e).retained = s.retained := by
  show (s.setEntry e { s.entries e with decode := some s.decodeChain.length }).retained = s.retained
  exact retained_setEntry rfl

theorem Budgeted.preloadSound (budgeted : Budgeted s) (url : String) (ctx : Bool) : Budgeted (s.preloadSound url ctx) := by
  obtain ⟨found, member⟩ := budgeted.soundEntry url
  unfold SoundPage.preloadSound
  split
  · exact budgeted
  · dsimp only
    split
    · exact found
    next free =>
      have idle := Bool.eq_false_iff.mpr free
      obtain ⟨-, still, open_⟩ := SoundEntry.waits_eq_false.mp idle
      split
      · have chained := found.toChained.setEntry still ((SoundEntry.failed_decode _).trans still) ((found.sound _).failed still open_)
        exact { chained with bounded := found.bounded, budget := (retained_setEntry (SoundEntry.failed_bytes _)).trans_le found.budget }
      · have chained := found.toChained.queueLink member idle
        exact { chained with bounded := found.bounded, budget := retained_queueLink.trans_le found.budget }

/-! ### Links -/

variable {phase : LinkPhase}

variable {other : DecodeLink}

theorem setPhase_old {p : Nat} (there : s.decodeChain[p]? = some other) (apart : p ≠ place) :
    (s.setPhase place phase).decodeChain[p]? = some other := by
  show (s.decodeChain.modify place _)[p]? = some other
  rw [List.getElem?_modify, there]
  simp [Ne.symm apart]

section

variable (there : s.decodeChain[place]? = some link)
include there

theorem setPhase_self :
    (s.setPhase place phase).decodeChain[place]? = some { link with phase } := by
  show (s.decodeChain.modify place _)[place]? = _
  rw [List.getElem?_modify, there]
  simp

theorem setPhase_cases {p : Nat} (here : (s.setPhase place phase).decodeChain[p]? = some other) :
    p ≠ place ∧ s.decodeChain[p]? = some other ∨ p = place ∧ other = { link with phase } := by
  by_cases same : p = place
  · subst same
    exact .inr ⟨rfl, (Option.some.inj ((setPhase_self there).symm.trans here)).symm⟩
  · refine .inl ⟨same, ?_⟩
    change (s.decodeChain.modify place _)[p]? = some other at here
    rw [List.getElem?_modify] at here
    cases old : s.decodeChain[p]? with
    | none =>
      rw [old] at here
      cases here
    | some link' =>
      rw [old] at here
      simpa [Ne.symm same] using here

theorem setPhase_mem
    (member : other ∈ (s.setPhase place phase).decodeChain) : ∃ old ∈ s.decodeChain, old.entry = other.entry := by
  obtain ⟨p, here⟩ := List.mem_iff_getElem?.mp member
  rcases setPhase_cases there here with ⟨-, old⟩ | ⟨-, rfl⟩
  · exact ⟨other, List.mem_of_getElem? old, rfl⟩
  · exact ⟨link, List.mem_of_getElem? there, rfl⟩

end

/-- Links settle in their order. -/
theorem setPhase_ordered (chained : Chained s) (there : s.decodeChain[place]? = some link) (turn : ∀ before < place, s.InPhase before .settled)
    (unsettled : link.phase ≠ .settled) {before p : Nat} (earlier : before < p)
    (here : (s.setPhase place phase).decodeChain[p]? = some other) (begun : other.phase ≠ .queued) :
    (s.setPhase place phase).InPhase before .settled := by
  have keep (settled : s.InPhase before .settled) : (s.setPhase place phase).InPhase before .settled := by
    obtain ⟨first, old, done⟩ := settled
    refine ⟨first, setPhase_old old ?_, done⟩
    rintro rfl
    exact unsettled (Option.some.inj (there.symm.trans old) ▸ done)
  rcases setPhase_cases there here with ⟨-, old⟩ | ⟨rfl, -⟩
  · exact keep (chained.ordered before p other earlier old begun)
  · exact keep (turn before earlier)

/-- While a link is not settled and its turn has come, no other one runs. -/
theorem Chained.alone (chained : Chained s) (there : s.decodeChain[place]? = some link) (turn : ∀ before < place, s.InPhase before .settled)
    (unsettled : link.phase ≠ .settled) {p : Nat} (here : s.decodeChain[p]? = some other)
    (running : other.phase = .running) : p = place := by
  rcases Nat.lt_trichotomy p place with before | same | behind
  · obtain ⟨first, old, settled⟩ := turn p before
    rw [Option.some.inj (old.symm.trans here), running] at settled
    cases settled
  · exact same
  · obtain ⟨first, old, settled⟩ := chained.ordered place p other behind here (by rw [running]; decide)
    exact absurd (Option.some.inj (there.symm.trans old) ▸ settled) unsettled

/-- The turn of a running link has come. -/
theorem Chained.turn (chained : Chained s) (there : s.decodeChain[place]? = some link) (running : link.phase = .running) :
    ∀ before < place, s.InPhase before .settled :=
  fun before earlier => chained.ordered before place link earlier there (by rw [running]; decide)

theorem Chained.startLink (chained : Chained s) (there : s.decodeChain[place]? = some link) (queued : link.phase = .queued)
    (turn : ∀ before < place, s.InPhase before .settled) : Chained (s.startLink place link) := by
  have unsettled : link.phase ≠ .settled := by
    rw [queued]
    decide
  have none_runs {p : Nat} {other : DecodeLink} (here : s.decodeChain[p]? = some other) : other.phase ≠ .running := by
    intro running
    obtain rfl := chained.alone there turn unsettled here running
    rw [Option.some.inj (here.symm.trans there), queued] at running
    cases running
  have nothing : s.decodingEntry = none := by
    cases decoding : s.decodingEntry with
    | none => rfl
    | some e =>
      obtain ⟨p, other, here, running, -⟩ := chained.decoding e decoding
      exact absurd running (none_runs here)
  have known (phase : LinkPhase) : ∀ other ∈ (s.setPhase place phase).decodeChain, other.entry < s.made := by
    intro other member
    obtain ⟨old, there, same⟩ := setPhase_mem there member
    exact same ▸ chained.known old there
  unfold SoundPage.startLink
  dsimp only
  split
  next dropped =>
    -- an entry that waits for this link is there as it was made
    have unneeded (cached : (link.url, link.entry) ∈ s.soundCache) : (s.entries link.entry).decode ≠ some place := by
      intro waits
      obtain ⟨unset, open_⟩ := (chained.sound link.entry).pending (by rw [waits]; exact Option.some_ne_none place)
      rw [get_of_mem chained.urls cached, unset, open_] at dropped
      simp at dropped
    constructor
    case urls => exact chained.urls
    case ids => exact chained.ids
    case made => exact chained.made
    case known => exact known .settled
    case sound => exact chained.sound
    case awaited =>
      rintro item cached p waits
      obtain ⟨other, here, same, left⟩ := chained.awaited item cached p waits
      refine ⟨other, setPhase_old here ?_, same, left⟩
      rintro rfl
      obtain rfl := Option.some.inj (here.symm.trans there)
      subst same
      exact unneeded cached waits
    case pending =>
      intro p other here left cached
      rcases setPhase_cases there here with ⟨-, old⟩ | ⟨-, rfl⟩
      · exact chained.pending p other old left cached
      · exact absurd rfl left
    case running =>
      intro p other here running
      rcases setPhase_cases there here with ⟨-, old⟩ | ⟨-, rfl⟩
      · exact absurd running (none_runs old)
      · cases running
    case decoding =>
      intro e decoding
      cases nothing.symm.trans decoding
    case ordered => exact fun before p other earlier here begun => setPhase_ordered chained there turn unsettled earlier here begun
  -- the link runs: its item is cached, and no other link was running
  next kept =>
    have cached : (link.url, link.entry) ∈ s.soundCache := mem_of_get (not_not.mp (not_or.mp kept).1)
    constructor
    case urls => exact chained.urls
    case ids => exact chained.ids
    case made => exact chained.made
    case known => exact known .running
    case sound => exact chained.sound
    case awaited =>
      rintro item member p waits
      obtain ⟨other, here, same, left⟩ := chained.awaited item member p waits
      by_cases mine : p = place
      · subst mine
        obtain rfl := Option.some.inj (here.symm.trans there)
        exact ⟨_, setPhase_self there, same, LinkPhase.noConfusion⟩
      · exact ⟨other, setPhase_old here mine, same, left⟩
    case pending =>
      intro p other here left member
      rcases setPhase_cases there here with ⟨-, old⟩ | ⟨rfl, rfl⟩
      · exact chained.pending p other old left member
      · exact chained.pending p link there unsettled member
    case running =>
      intro p other here running
      rcases setPhase_cases there here with ⟨-, old⟩ | ⟨-, rfl⟩
      · exact absurd running (none_runs old)
      · exact ⟨rfl, cached⟩
    case decoding =>
      intro e decoding
      exact ⟨place, _, setPhase_self there, rfl, Option.some.inj decoding⟩
    case ordered => exact fun before p other earlier here begun => setPhase_ordered chained there turn unsettled earlier here begun

theorem Budgeted.startLink (budgeted : Budgeted s) (there : s.decodeChain[place]? = some link) (queued : link.phase = .queued)
    (turn : ∀ before < place, s.InPhase before .settled) : Budgeted (s.startLink place link) := by
  have cache : (s.startLink place link).soundCache = s.soundCache ∧ (s.startLink place link).retained = s.retained := by
    unfold SoundPage.startLink
    dsimp only
    split
    · exact ⟨rfl, rfl⟩
    · exact ⟨rfl, rfl⟩
  exact { budgeted.toChained.startLink there queued turn with
    bounded := cache.1 ▸ budgeted.bounded
    budget := cache.2.trans_le budgeted.budget }

/-- The entry of the running link is set, and waits for nothing more. -/
theorem Chained.settled (chained : Chained s) (there : s.decodeChain[place]? = some link) (running : link.phase = .running)
    (sound : entry.Sound) (cleared : entry.decode = none) :
    Chained ({ s.setEntry link.entry entry with decodingEntry := none }.setPhase place .settled) := by
  have turn := chained.turn there running
  have unsettled : link.phase ≠ .settled := by
    rw [running]
    decide
  have cached := (chained.running place link there running).2
  have waits := chained.pending place link there unsettled cached
  have entries (e : Nat) : ({ s.setEntry link.entry entry with decodingEntry := none }.setPhase place .settled).entries e =
      if e = link.entry then entry else s.entries e := Function.update_apply ..
  constructor
  case urls => exact chained.urls
  case ids => exact chained.ids
  case made => exact chained.made
  case known =>
    intro other member
    obtain ⟨old, there, same⟩ := setPhase_mem there member
    exact same ▸ chained.known old there
  case sound =>
    intro e
    rw [entries]
    split
    · exact sound
    · exact chained.sound e
  case awaited =>
    intro item member p waiting
    rw [entries] at waiting
    split at waiting
    next => cases cleared.symm.trans waiting
    -- any other entry waits for a link elsewhere, which the settling leaves alone
    next apart =>
      obtain ⟨other, here, same, left⟩ := chained.awaited item member p waiting
      refine ⟨other, setPhase_old here ?_, same, left⟩
      rintro rfl
      obtain rfl := Option.some.inj (here.symm.trans there)
      exact apart (congrArg Prod.snd same).symm
  case pending =>
    intro p other here left member
    rcases setPhase_cases there here with ⟨mine, old⟩ | ⟨-, rfl⟩
    · have waiting := chained.pending p other old left member
      rw [entries, if_neg, waiting]
      -- two links of one entry cannot both be the one it waits for
      intro same
      rw [same, waits] at waiting
      exact mine (Option.some.inj waiting).symm
    · exact absurd rfl left
  case running =>
    intro p other here again
    rcases setPhase_cases there here with ⟨mine, old⟩ | ⟨-, rfl⟩
    · exact absurd (chained.alone there turn unsettled old again) mine
    · cases again
  case decoding =>
    intro e decoding
    cases decoding
  case ordered => exact fun before p other earlier here begun => setPhase_ordered chained there turn unsettled earlier here begun

theorem Budgeted.settleLink (budgeted : Budgeted s) (there : s.decodeChain[place]? = some link) (running : link.phase = .running)
    (outcome : DecodeOutcome) : Budgeted (s.settleLink place link outcome) := by
  have unsettled : link.phase ≠ .settled := by
    rw [running]
    decide
  have waits := budgeted.pending place link there unsettled (budgeted.running place link there running).2
  have sound := budgeted.sound link.entry
  have open_ := (sound.pending (by rw [waits]; exact Option.some_ne_none place)).2
  obtain ⟨chained, few, small⟩ := (budgeted.toChained.settled there running (outcome.sound sound open_) rfl).enforced
  exact { chained with
    bounded := Nat.le_succ_of_le few
    budget := small }

/-- What one step keeps. -/
theorem Budgeted.step {i : SoundInput} {s' : SoundPage} (step : Step s i s') (budgeted : Budgeted s) : Budgeted s' := by
  cases step with
  | soundEntry url => exact (budgeted.soundEntry url).1
  | preloadSound url ctx => exact budgeted.preloadSound url ctx
  | start there queued turn => exact budgeted.startLink there queued turn
  | settle there running outcome => exact budgeted.settleLink there running outcome

end SoundPage

end Braidcast.Overlay
