import Braidcast.Chat.Table
import Mathlib.Data.List.TakeWhile

/-!
# One selection, three filters

The dock filters the live rows it appends with `matchesSelection`, the host filters the pages
it reads from memory with `Feed::Filter::Matches`, and the stored chat is filtered by the
condition `ReadOlder` adds to its query. The host's filter is built by `filterOf`, sent as
JSON and read by `ParseFilter`.

The webview tells an absent field from an empty one; the host reads both as "".
-/
namespace Braidcast.Feed

open Lib (Json Fields)
open Chat

/-! ### The webview -/

/-- The part of a feed row that decides which destination it came from. -/
structure DestinationSource where
  platform : String
  accountId : Option String := none
  profileUuid : Option String := none

structure DestinationIdentity where
  /-- "" for a profile with no linked account. -/
  accountId : String

def ascii (s : String) : Bool := s.toList.all fun c => decide (c.toNat < 128)

/-- A platform as the platform tables key it. -/
structure PlatformKey where
  key : String
  named : key ≠ ""
  plain : ascii key = true
  normal : normalizePlatform key = key

inductive DestinationSelection where
  | all
  | platform (platform : PlatformKey)
  | destination (profileUuid : String)

/-- White space and line terminators, as `String.prototype.trim` takes them. -/
def jsSpace (c : Char) : Bool :=
  c.toNat ∈ [0x9, 0xa, 0xb, 0xc, 0xd, 0x20, 0xa0, 0x1680, 0x2028, 0x2029, 0x202f, 0x205f, 0x3000, 0xfeff] ||
    (decide (0x2000 ≤ c.toNat) && decide (c.toNat ≤ 0x200a))

def trimChars (space : Char → Bool) (cs : List Char) : List Char :=
  ((cs.dropWhile space).reverse.dropWhile space).reverse

def trim (s : String) : String := String.ofList (trimChars jsSpace s.toList)

/-- What is known of `String.prototype.toLowerCase`: ASCII letters map to theirs. -/
def LowersAscii (toLowerCase : String → String) : Prop :=
  ∀ s, ascii s = true → toLowerCase s = String.ofList (s.toList.map Char.toLower)

section

variable (toLowerCase : String → String)

def platformKey (raw : String) : String := toLowerCase (trim raw)

def matchesSelection (item : DestinationSource) (sel : DestinationSelection)
    (destByUuid : String → Option DestinationIdentity) : Bool :=
  match sel with
  | .all => true
  | .platform platform => platformKey toLowerCase item.platform == platform.key
  | .destination profileUuid =>
    match item.profileUuid with
    | some own =>
      if own ≠ "" then own == profileUuid
      else item.accountId == (destByUuid profileUuid).map (·.accountId)
    | none => item.accountId == (destByUuid profileUuid).map (·.accountId)

end

/-- The selection as the `filter` of a page request. -/
def filterOf (sel : DestinationSelection) (destByUuid : String → Option DestinationIdentity) : Json :=
  match sel with
  | .all => .obj [("kind", .str "all")]
  | .platform platform => .obj [("kind", .str "platform"), ("platform", .str platform.key)]
  | .destination profileUuid =>
    .obj [("accountId", .str (((destByUuid profileUuid).map (·.accountId)).getD "")), ("kind", .str "destination"),
      ("profileUuid", .str profileUuid)]

/-! ### The host -/

/-- `ParseFilter` over the params of a request. -/
def parseFilter (params : Json) : Except String Filter :=
  match params with
  | .obj fields =>
    match Fields.get? fields "filter" with
    | none => .ok .all
    | some .null => .ok .all
    | some (.obj filter) =>
      let kind := str filter "kind"
      if kind = "all" then .ok .all
      else if kind = "platform" then
        let platform := normalizePlatform (str filter "platform")
        if platform = "" then .error "a platform filter needs a platform" else .ok (.platform platform)
      else if kind = "destination" then
        let profileUuid := str filter "profileUuid"
        if profileUuid = "" then .error "a destination filter needs a profileUuid"
        else .ok (.destination profileUuid (str filter "accountId"))
      else .error "filter.kind must be all, platform or destination"
    | some _ => .error "filter must be an object"
  | _ => .ok .all

/-- `Filter::Matches` on the host's copy of the row. -/
def hostMatches (filter : Filter) (item : DestinationSource) : Bool :=
  filter.matchesItem item.platform (item.profileUuid.getD "") (item.accountId.getD "")

/-- The row's columns in chat.db. -/
structure StoredAs (item : DestinationSource) (r : StoredRow) : Prop where
  platform : r.platform = normalizePlatform item.platform
  profileUuid : r.profileUuid = item.profileUuid.getD ""
  accountId : r.accountId = item.accountId.getD ""

/-- The host reads the filter, and all three answer alike. -/
def Agree (toLowerCase : String → String) (item : DestinationSource) (sel : DestinationSelection)
    (destByUuid : String → Option DestinationIdentity) : Prop :=
  ∃ filter, parseFilter (.obj [("filter", filterOf sel destByUuid)]) = .ok filter ∧
    hostMatches filter item = matchesSelection toLowerCase item sel destByUuid ∧
    ∀ r, StoredAs item r → filter.selects r = matchesSelection toLowerCase item sel destByUuid

/-- Neither side of the account comparison of a channel-wide row is absent while the other
is empty. -/
def AccountsComparable (item : DestinationSource) (account : Option String) : Prop :=
  item.profileUuid.getD "" = "" →
    ¬ (item.accountId = none ∧ account = some "") ∧ ¬ (item.accountId = some "" ∧ account = none)

/-- Where the three answer alike. -/
def ReadAlike (toLowerCase : String → String) (item : DestinationSource) (sel : DestinationSelection)
    (destByUuid : String → Option DestinationIdentity) : Prop :=
  match sel with
  | .all => True
  | .platform platform => platformKey toLowerCase item.platform = platform.key → ascii item.platform = true
  | .destination profileUuid =>
    profileUuid ≠ "" ∧ AccountsComparable item ((destByUuid profileUuid).map (·.accountId))

/-! ### Platform names -/

theorem normalizePlatform_eq (platform : String) :
    normalizePlatform platform =
      String.ofList ((trimChars (fun c => c ∈ [' ', '\t', '\n', '\x0b', '\x0c', '\r']) platform.toList).map
        Char.toLower) := rfl

/-- Of the ASCII characters both trims take the same. -/
theorem jsSpace_of_ascii {c : Char} (plain : c.toNat < 128) :
    jsSpace c = decide (c ∈ [' ', '\t', '\n', '\x0b', '\x0c', '\r']) := by
  have code (d : Char) : c = d ↔ c.toNat = d.toNat := by
    constructor
    · rintro rfl
      rfl
    · intro same
      exact Char.ext (UInt32.toNat_inj.mp same)
  apply Bool.eq_iff_iff.mpr
  simp only [jsSpace, List.mem_cons, List.not_mem_nil, or_false, Bool.or_eq_true, decide_eq_true_eq,
    Bool.and_eq_true, code, show ' '.toNat = 32 from rfl, show '\t'.toNat = 9 from rfl,
    show '\n'.toNat = 10 from rfl, show '\x0b'.toNat = 11 from rfl, show '\x0c'.toNat = 12 from rfl,
    show '\r'.toNat = 13 from rfl]
  omega

variable {cs : List Char}

theorem mem_of_mem_trimChars {space : Char → Bool} {c : Char} (member : c ∈ trimChars space cs) :
    c ∈ cs := by
  have inner := List.mem_reverse.mp ((List.dropWhile_sublist space).subset (List.mem_reverse.mp member))
  exact (List.dropWhile_sublist space).subset inner

/-- What trimming ASCII white space takes away is ASCII. -/
theorem mem_trimChars_or {space : Char → Bool} {c : Char} (member : c ∈ cs) :
    c ∈ trimChars space cs ∨ space c = true := by
  have split (xs : List Char) (here : c ∈ xs) : c ∈ xs.dropWhile space ∨ space c = true := by
    rw [← List.takeWhile_append_dropWhile (p := space) (l := xs)] at here
    rcases List.mem_append.mp here with taken | kept
    · exact .inr (List.mem_takeWhile_imp taken)
    · exact .inl kept
  rcases split cs member with kept | gone
  · rcases split _ (List.mem_reverse.mpr kept) with kept | gone
    · exact .inl (List.mem_reverse.mpr kept)
    · exact .inr gone
  · exact .inr gone

theorem trimChars_congr {space space' : Char → Bool} (same : ∀ c ∈ cs, space c = space' c) :
    trimChars space cs = trimChars space' cs := by
  have drop (xs : List Char) (within : ∀ c ∈ xs, c ∈ cs) : xs.dropWhile space = xs.dropWhile space' := by
    induction xs with
    | nil => rfl
    | cons x xs ih =>
      simp only [List.dropWhile_cons, same x (within x List.mem_cons_self)]
      rw [ih fun c member => within c (List.mem_cons_of_mem _ member)]
  have first := drop cs fun _ member => member
  unfold trimChars
  rw [first, drop _ fun c member => (List.dropWhile_sublist space').subset (List.mem_reverse.mp member)]

/-- On an ASCII name the webview's key is the host's. -/
theorem platformKey_of_ascii {toLowerCase : String → String} (lowers : LowersAscii toLowerCase) {raw : String}
    (plain : ascii raw = true) : platformKey toLowerCase raw = normalizePlatform raw := by
  have small : ∀ c ∈ raw.toList, c.toNat < 128 := by
    simpa only [ascii, List.all_eq_true, decide_eq_true_eq] using plain
  have trimmed : trim raw =
      String.ofList (trimChars (fun c => c ∈ [' ', '\t', '\n', '\x0b', '\x0c', '\r']) raw.toList) := by
    rw [trim, trimChars_congr fun c member => jsSpace_of_ascii (small c member)]
  have kept : ascii (trim raw) = true := by
    simp only [ascii, trim, String.toList_ofList, List.all_eq_true, decide_eq_true_eq]
    exact fun c member => small c (mem_of_mem_trimChars member)
  rw [platformKey, lowers _ kept, trimmed, String.toList_ofList, normalizePlatform_eq]

theorem toLower_toNat {c : Char} (wide : ¬ c.toNat < 128) : c.toLower = c := by
  unfold Char.toLower
  split
  next upper =>
    have bound : c.toNat ≤ 'Z'.toNat := upper.2
    have z : 'Z'.toNat = 90 := rfl
    omega
  · rfl

/-- A name with a character beyond ASCII keeps it, so it is no key of the tables. -/
theorem normalizePlatform_ne_of_wide {raw : String} (wide : ascii raw = false) (platform : PlatformKey) :
    normalizePlatform raw ≠ platform.key := by
  intro same
  obtain ⟨c, member, beyond⟩ : ∃ c ∈ raw.toList, ¬ c.toNat < 128 := by
    simpa only [ascii, List.all_eq_false, decide_eq_true_eq] using wide
  have kept : c ∈ (normalizePlatform raw).toList := by
    rw [normalizePlatform_eq, String.toList_ofList, List.mem_map]
    refine ⟨c, (mem_trimChars_or member).resolve_right fun space => beyond ?_, toLower_toNat beyond⟩
    rw [decide_eq_true_eq] at space
    simp only [List.mem_cons, List.not_mem_nil, or_false] at space
    rcases space with rfl | rfl | rfl | rfl | rfl | rfl <;> decide
  have plain := platform.plain
  simp only [ascii, List.all_eq_true, decide_eq_true_eq] at plain
  exact beyond (plain c (same ▸ kept))

/-! ### The three filters -/

/-- `ParseFilter` reads back what `filterOf` builds, unless no profile is named. -/
theorem parseFilter_filterOf (sel : DestinationSelection) (destByUuid : String → Option DestinationIdentity) :
    parseFilter (.obj [("filter", filterOf sel destByUuid)]) =
      match sel with
      | .all => .ok .all
      | .platform platform => .ok (.platform platform.key)
      | .destination profileUuid =>
        if profileUuid = "" then .error "a destination filter needs a profileUuid"
        else .ok (.destination profileUuid (((destByUuid profileUuid).map (·.accountId)).getD "")) := by
  cases sel with
  | all => rfl
  | platform platform =>
    simp [parseFilter, filterOf, Fields.get?, str, List.lookup_cons, platform.normal, platform.named]
  | destination profileUuid =>
    simp [parseFilter, filterOf, Fields.get?, str, List.lookup_cons]

/-- On a stored row the query's condition is `Filter::Matches`. -/
theorem selects_eq_hostMatches (filter : Filter) {item : DestinationSource} {r : StoredRow}
    (stored : StoredAs item r) : filter.selects r = hostMatches filter item := by
  cases filter <;>
    simp [Filter.selects, hostMatches, Filter.matchesItem, stored.platform, stored.profileUuid, stored.accountId]

/-- So the three answer alike when the first two do. -/
theorem agree_iff_host {toLowerCase : String → String} {item : DestinationSource} {sel : DestinationSelection}
    {destByUuid : String → Option DestinationIdentity} :
    Agree toLowerCase item sel destByUuid ↔
      ∃ filter, parseFilter (.obj [("filter", filterOf sel destByUuid)]) = .ok filter ∧
        hostMatches filter item = matchesSelection toLowerCase item sel destByUuid := by
  constructor
  · rintro ⟨filter, parsed, host, -⟩
    exact ⟨filter, parsed, host⟩
  · rintro ⟨filter, parsed, host⟩
    exact ⟨filter, parsed, host, fun r stored => (selects_eq_hostMatches filter stored).trans host⟩

/-- An account read as "" where it is absent compares as the webview's does, but for an
absent one against an empty one. -/
theorem getD_beq_iff (mine account : Option String) :
    (mine.getD "" == account.getD "") = (mine == account) ↔
      ¬ (mine = none ∧ account = some "") ∧ ¬ (mine = some "" ∧ account = none) := by
  cases mine with
  | none =>
    cases account with
    | none => simp
    | some account => by_cases empty : account = "" <;> simp [empty, Ne.symm (a := account)]
  | some mine =>
    cases account with
    | none => by_cases empty : mine = "" <;> simp [empty]
    | some account => simp

theorem filters_agree_iff {toLowerCase : String → String} (lowers : LowersAscii toLowerCase)
    (item : DestinationSource) (sel : DestinationSelection) (destByUuid : String → Option DestinationIdentity) :
    Agree toLowerCase item sel destByUuid ↔ ReadAlike toLowerCase item sel destByUuid := by
  rw [agree_iff_host, parseFilter_filterOf]
  cases sel with
  | all => simp [hostMatches, Filter.matchesItem, matchesSelection, ReadAlike]
  | platform platform =>
    simp only [Except.ok.injEq, exists_eq_left', hostMatches, Filter.matchesItem, matchesSelection, ReadAlike]
    cases plain : ascii item.platform with
    | true => simp [platformKey_of_ascii lowers plain]
    | false =>
      have host := normalizePlatform_ne_of_wide plain platform
      by_cases shown : platformKey toLowerCase item.platform = platform.key <;> simp [host, shown]
  | destination profileUuid =>
    by_cases named : profileUuid = ""
    · simp [named, ReadAlike]
    · simp only [named, if_false, Except.ok.injEq, exists_eq_left', hostMatches, Filter.matchesItem, matchesSelection,
        ReadAlike, AccountsComparable, ne_eq, not_false_iff, true_and]
      rw [← getD_beq_iff]
      have apart : ("" == profileUuid) = false := by simpa using Ne.symm named
      -- a row with a profile of its own is compared by that alone
      cases item.profileUuid with
      | none => simp only [Option.getD_none, apart, beq_self_eq_true, Bool.true_and, Bool.false_or, true_imp_iff]
      | some own =>
        by_cases empty : own = ""
        · simp only [empty, Option.getD_some, apart, beq_self_eq_true, Bool.true_and, Bool.false_or, true_imp_iff,
            not_true, if_false]
        · simp [empty]

/-- `toLowerCase` of an ASCII string. -/
def asciiLower (s : String) : String := String.ofList (s.toList.map Char.toLower)

theorem filters_agree_iff_channelWide :
    Agree asciiLower { platform := "Kick", accountId := some "kick:7" } (.destination "p1")
      (fun uuid => if uuid = "p1" then some ⟨"kick:7"⟩ else none) :=
  (filters_agree_iff (fun _ _ => rfl) _ _ _).mpr ⟨by decide, fun _ => ⟨by simp, by simp⟩⟩

/-- A row with no account, under a profile linked to none. -/
theorem filters_part_on_absent_account :
    ¬∀ (toLowerCase : String → String) (item : DestinationSource) (sel : DestinationSelection)
      (destByUuid : String → Option DestinationIdentity),
      LowersAscii toLowerCase → Agree toLowerCase item sel destByUuid := by
  intro law
  obtain ⟨filter, parsed, same, -⟩ := law asciiLower { platform := "twitch" } (.destination "p1")
    (fun uuid => if uuid = "p1" then some ⟨""⟩ else none) (fun _ _ => rfl)
  obtain rfl : Filter.destination "p1" "" = filter := Except.ok.inj parsed
  exact absurd same (by decide)

end Braidcast.Feed
