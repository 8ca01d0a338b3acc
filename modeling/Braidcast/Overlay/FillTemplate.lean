import Braidcast.Lib.Utf16

/-!
# Filling a template

`fillTemplate.ts`. A global `replace` tries its pattern at each unit and goes on behind a match. Nothing in the
patterns is matched in two ways: a key ends where its word does, and a run of spaces before the brace.
-/
namespace Braidcast.Overlay.FillTemplate

open Lib

def space : UInt16 := 32

def openBrace : UInt16 := 123

def closeBrace : UInt16 := 125

/-- `\w`. -/
def isWord (u : UInt16) : Bool := (48 ≤ u && u ≤ 57) || (65 ≤ u && u ≤ 90) || u = 95 || (97 ≤ u && u ≤ 122)

def tokenText (key : JsString) : JsString := openBrace :: key ++ [closeBrace]

/-- `kTemplateToken` where the text stands, with how many units it takes. -/
def tokenAt (_before : Option UInt16) : JsString → Option (Nat × JsString)
  | [] => none
  | u :: rest =>
    let key := rest.takeWhile isWord
    if u = openBrace ∧ key ≠ [] ∧ (rest.dropWhile isWord).head? = some closeBrace then some (key.length + 2, key) else none

/-- `kEmptyTemplateToken`: the spaces and the key. -/
def spacedTokenAt (before : Option UInt16) (text : JsString) : Option (Nat × JsString × JsString) :=
  if before = some space then none
  else
    let spaces := text.takeWhile (· = space)
    (tokenAt none (text.dropWhile (· = space))).map fun (length, key) => (spaces.length + length, spaces, key)

/-- What a scan makes of a text: `onMatch` of a match and `onUnit` of any other unit. `skip` units of a match are still to come. -/
def scan {μ β : Type} (match_ : Option UInt16 → JsString → Option (Nat × μ)) (onMatch : μ → List β) (onUnit : UInt16 → β) :
    Nat → Option UInt16 → JsString → List β
  | _, _, [] => []
  | skip + 1, _, u :: rest => scan match_ onMatch onUnit skip (some u) rest
  | 0, before, u :: rest =>
    match match_ before (u :: rest) with
    | some (length, m) => onMatch m ++ scan match_ onMatch onUnit (length - 1) (some u) rest
    | none => onUnit u :: scan match_ onMatch onUnit 0 (some u) rest

/-- What `trim` takes off. -/
def isSpace (u : UInt16) : Bool :=
  u ∈ [9, 10, 11, 12, 13, 32, 160, 5760, 8232, 8233, 8239, 8287, 12288, 65279] || (8192 ≤ u && u ≤ 8202)

def trim (text : JsString) : JsString := ((text.dropWhile isSpace).reverse.dropWhile isSpace).reverse

-- The values by their keys. One that is null or undefined has no text.
variable (values : JsString → Option (Option JsString))

def valueOf (key : JsString) : Option JsString := (values key).map (·.getD [])

/-- The first `replace`. -/
def dropEmpty (text : JsString) : JsString :=
  scan spacedTokenAt (fun (spaces, key) => if valueOf values key = some [] then [] else spaces ++ tokenText key) id 0 none text

/-- The second `replace`. -/
def fillTokens (text : JsString) : JsString :=
  scan tokenAt (fun key => (valueOf values key).getD (tokenText key)) id 0 none text

def fillTemplate (text : JsString) : JsString := trim (fillTokens values (dropEmpty values text))

/-! ### One scan -/

/-- A known token as its value, an empty one with the spaces before it, and an unknown one as it stands. -/
def shownToken (spaces key : JsString) : JsString :=
  match valueOf values key with
  | some [] => []
  | some value => spaces ++ value
  | none => spaces ++ tokenText key

def fillInOneScan (text : JsString) : JsString := trim (scan spacedTokenAt (fun (spaces, key) => shownToken values spaces key) id 0 none text)

inductive Piece where
  | unit (u : UInt16)
  | token (key : JsString)
  deriving DecidableEq

/-- What the template is made of, without the empty tokens and the spaces before them. -/
def pieces (text : JsString) : List Piece :=
  scan spacedTokenAt (fun (spaces, key) => if valueOf values key = some [] then [] else spaces.map .unit ++ [.token key]) .unit 0 none text

/-- Dropping the empty tokens has put no known one together: no units of the template in a row spell one. -/
def FormsNoToken (text : JsString) : Prop :=
  ∀ before key after, key ≠ [] → key.all isWord = true → (valueOf values key).isSome = true →
    pieces values text ≠ before ++ .unit openBrace :: (key.map .unit ++ .unit closeBrace :: after)

def Piece.text : Piece → JsString
  | unit u => [u]
  | token key => tokenText key

def Piece.shown : Piece → JsString
  | unit u => [u]
  | token key => (valueOf values key).getD (tokenText key)

variable {values} {μ β γ : Type} {key text rest : JsString} {n : Nat}

/-! ### Matches -/

theorem tokenAt_iff {before : Option UInt16} : tokenAt before text = some (n, key) ↔
    n = key.length + 2 ∧ key ≠ [] ∧ key.all isWord = true ∧ ∃ rest, text = tokenText key ++ rest := by
  constructor
  · intro found
    cases text with
    | nil => cases found
    | cons u rest =>
      simp only [tokenAt, Option.ite_none_right_eq_some, Option.some.injEq, Prod.mk.injEq] at found
      obtain ⟨⟨rfl, some, close⟩, rfl, rfl⟩ := found
      obtain ⟨behind, split⟩ := List.head?_eq_some_iff.mp close
      refine ⟨rfl, some, List.all_takeWhile, behind, ?_⟩
      have whole := List.takeWhile_append_dropWhile (p := isWord) (l := rest)
      rw [split] at whole
      simp [tokenText, whole]
  · rintro ⟨rfl, some, word, rest, rfl⟩
    have text : tokenText key ++ rest = openBrace :: (key ++ closeBrace :: rest) := by simp [tokenText]
    have all := List.all_eq_true.mp word
    have ends : (key ++ closeBrace :: rest).takeWhile isWord = key ∧ (key ++ closeBrace :: rest).dropWhile isWord = closeBrace :: rest := by
      rw [List.takeWhile_append_of_pos all, List.takeWhile_cons_of_neg (by decide), List.append_nil,
        List.dropWhile_append_of_pos all, List.dropWhile_cons_of_neg (by decide)]
      exact ⟨rfl, rfl⟩
    rw [text, tokenAt, ends.1, ends.2]
    simp [some]

/-! ### Scans -/

section Scan

variable {match_ : Option UInt16 → JsString → Option (Nat × μ)} {onMatch : μ → List β} {onUnit : UInt16 → β}

theorem scan_flatMap {onMatch' : μ → List γ} {onUnit' : UInt16 → γ} {h : β → List γ} (matches_ : ∀ m, onMatch' m = (onMatch m).flatMap h)
    (units : ∀ u, h (onUnit u) = [onUnit' u]) (skip : Nat) (before : Option UInt16) (text : JsString) :
    scan match_ onMatch' onUnit' skip before text = (scan match_ onMatch onUnit skip before text).flatMap h := by
  fun_induction scan match_ onMatch onUnit skip before text with
  | case1 => rfl
  | case2 before u rest skip ih => rw [scan, ih]
  | case3 before u rest length m found ih => rw [scan, found, List.flatMap_append, ← matches_, ← ih]
  | case4 before u rest none_ ih => rw [scan, none_, List.flatMap_cons, units, ← ih, List.singleton_append]

theorem mem_scan {b : β} {skip : Nat} {before : Option UInt16} (member : b ∈ scan match_ onMatch onUnit skip before text) :
    (∃ u, b = onUnit u) ∨ ∃ before there length m, match_ before there = some (length, m) ∧ b ∈ onMatch m := by
  fun_induction scan match_ onMatch onUnit skip before text with
  | case1 => cases member
  | case2 before u rest skip ih => exact ih member
  | case3 before u rest length m found ih =>
    rcases List.mem_append.mp member with here | later
    · exact .inr ⟨before, u :: rest, length, m, found, here⟩
    · exact ih later
  | case4 before u rest none_ ih =>
    rcases List.mem_cons.mp member with here | later
    · exact .inl ⟨u, here⟩
    · exact ih later

theorem scan_skip (xs ys : JsString) (before : Option UInt16) :
    ∃ before', scan match_ onMatch onUnit xs.length before (xs ++ ys) = scan match_ onMatch onUnit 0 before' ys := by
  induction xs generalizing before with
  | nil => exact ⟨before, rfl⟩
  | cons x xs ih => exact ih (some x)

end Scan

/-! ### The second scan -/

/-- Units that spell a word and a closing brace are pieces of their own. -/
theorem spelled (word : key.all isWord = true) {ps : List Piece} (spells : ps.flatMap Piece.text = key ++ closeBrace :: rest) :
    ∃ after, ps = key.map .unit ++ .unit closeBrace :: after := by
  induction key generalizing ps with
  | nil =>
    match ps, spells with
    | .unit u :: after, spells =>
      obtain ⟨rfl, -⟩ := List.cons.inj spells
      exact ⟨after, rfl⟩
    | .token key :: after, spells => exact absurd (List.cons.inj spells).1 (by decide)
  | cons c key ih =>
    rw [List.all_cons, Bool.and_eq_true] at word
    match ps, spells with
    | .unit u :: after, spells =>
      obtain ⟨rfl, later⟩ := List.cons.inj spells
      obtain ⟨behind, rfl⟩ := ih word.2 later
      exact ⟨behind, rfl⟩
    | .token key :: after, spells =>
      obtain ⟨rfl, -⟩ := List.cons.inj spells
      exact absurd word.1 (by decide)

/-- A token does not look at what is before it. -/
theorem scan_token (before : Option UInt16) (text : JsString) :
    scan tokenAt (fun key => (valueOf values key).getD (tokenText key)) id 0 before text = fillTokens values text := by
  cases text <;> rfl

theorem fillTokens_token (some : key ≠ []) (word : key.all isWord = true) (rest : JsString) :
    fillTokens values (tokenText key ++ rest) = (valueOf values key).getD (tokenText key) ++ fillTokens values rest := by
  have found : tokenAt none (openBrace :: (key ++ [closeBrace] ++ rest)) = .some (key.length + 2, key) :=
    tokenAt_iff.mpr ⟨rfl, some, word, rest, rfl⟩
  obtain ⟨before, skipped⟩ : ∃ before, scan tokenAt (fun key => (valueOf values key).getD (tokenText key)) id (key ++ [closeBrace]).length
      (.some openBrace) (key ++ [closeBrace] ++ rest) = _ := scan_skip (key ++ [closeBrace]) rest _
  rw [scan_token, List.length_append] at skipped
  change scan _ _ _ _ _ (openBrace :: (key ++ [closeBrace] ++ rest)) = _
  rw [scan, found]
  exact congrArg _ skipped

theorem fillTokens_cons {u : UInt16} (none_ : tokenAt none (u :: text) = none) : fillTokens values (u :: text) = u :: fillTokens values text := by
  rw [fillTokens, scan, none_]
  exact congrArg _ (scan_token _ text)

/-- Within a word and its closing brace no token starts. -/
theorem fillTokens_word (word : key.all isWord = true) (rest : JsString) :
    fillTokens values (key ++ closeBrace :: rest) = key ++ closeBrace :: fillTokens values rest := by
  have noToken {u : UInt16} (text : JsString) (other : u ≠ openBrace) : tokenAt none (u :: text) = none := if_neg fun h => other h.1
  induction key with
  | nil => exact fillTokens_cons (noToken rest (by decide))
  | cons c key ih =>
    rw [List.all_cons, Bool.and_eq_true] at word
    have other : c ≠ openBrace := by
      rintro rfl
      exact absurd word.1 (by decide)
    rw [List.cons_append, fillTokens_cons (noToken _ other), ih word.2, List.cons_append]

/-- The second scan fills the tokens there are, where the units spell no other known one. -/
theorem fillTokens_pieces {ps : List Piece} (tokens : ∀ key, .token key ∈ ps → key ≠ [] ∧ key.all isWord = true)
    (free : ∀ before key after, key ≠ [] → key.all isWord = true → (valueOf values key).isSome = true →
      ps ≠ before ++ .unit openBrace :: (key.map .unit ++ .unit closeBrace :: after)) :
    fillTokens values (ps.flatMap Piece.text) = ps.flatMap (Piece.shown values) := by
  induction ps with
  | nil => rfl
  | cons p ps ih =>
    have rest := ih (fun key member => tokens key (List.mem_cons_of_mem _ member))
      fun front key after some word known split => free (p :: front) key after some word known (by rw [split]; rfl)
    rw [List.flatMap_cons, List.flatMap_cons, ← rest]
    cases p with
    | token key => exact fillTokens_token (tokens key List.mem_cons_self).1 (tokens key List.mem_cons_self).2 _
    | unit u =>
      cases found : tokenAt none (u :: ps.flatMap Piece.text) with
      | none => exact fillTokens_cons found
      | some m =>
        obtain ⟨-, some, word, behind, split⟩ := tokenAt_iff.mp found
        obtain ⟨rfl, spells⟩ := List.cons.inj split
        change ps.flatMap Piece.text = m.2 ++ [closeBrace] ++ behind at spells
        rw [List.append_assoc, List.singleton_append] at spells
        obtain ⟨after, rfl⟩ := spelled word spells
        -- What the units spell is no known key, and so it stays.
        have unknown : valueOf values m.2 = none :=
          Option.not_isSome_iff_eq_none.mp fun known => free [] m.2 after some word known rfl
        have stays : fillTokens values (tokenText m.2 ++ behind) = _ := fillTokens_token some word behind
        rw [unknown, Option.getD_none] at stays
        rw [spells, fillTokens_word word]
        change fillTokens values (openBrace :: (m.2 ++ closeBrace :: behind)) = openBrace :: (m.2 ++ closeBrace :: _)
        simpa [tokenText] using stays

/-- The two scans are one where dropping the empty tokens puts no other together. -/
theorem fillTemplate_in_one_scan (free : FormsNoToken values text) : fillTemplate values text = fillInOneScan values text := by
  have texts (xs : JsString) : (xs.map Piece.unit).flatMap Piece.text = xs := by simp [List.flatMap_map, Piece.text]
  have shows (xs : JsString) : (xs.map Piece.unit).flatMap (Piece.shown values) = xs := by simp [List.flatMap_map, Piece.shown]
  have dropped : dropEmpty values text = (pieces values text).flatMap Piece.text := by
    apply scan_flatMap
    case units => exact fun u => rfl
    case matches_ =>
      rintro ⟨spaces, key⟩
      dsimp only
      split
      · rfl
      · rw [List.flatMap_append, texts]
        simp [Piece.text]
  have shown_ : scan spacedTokenAt (fun (spaces, key) => shownToken values spaces key) id 0 none text =
      (pieces values text).flatMap (Piece.shown values) := by
    apply scan_flatMap
    case units => exact fun u => rfl
    case matches_ =>
      rintro ⟨spaces, key⟩
      dsimp only [shownToken]
      split
      next empty => rw [if_pos empty, List.flatMap_nil]
      next value full known => rw [if_neg (by simpa [known] using full), List.flatMap_append, shows]; simp [Piece.shown, known]
      next unknown => rw [if_neg (by simp [unknown]), List.flatMap_append, shows]; simp [Piece.shown, unknown]
  have tokens : ∀ key, .token key ∈ pieces values text → key ≠ [] ∧ key.all isWord = true := by
    intro key member
    rcases mem_scan member with ⟨u, unit⟩ | ⟨before, there, length, ⟨spaces, key'⟩, found, inside⟩
    · cases unit
    · simp only [spacedTokenAt, Option.ite_none_left_eq_some, Option.map_eq_some_iff] at found
      obtain ⟨-, ⟨n, _⟩, found, same⟩ := found
      obtain ⟨-, -, rfl⟩ := same
      obtain ⟨-, some, word, -⟩ := tokenAt_iff.mp found
      dsimp only at inside
      split at inside
      · exact absurd inside List.not_mem_nil
      · simp only [List.mem_append, List.mem_map, reduceCtorEq, and_false, exists_false, List.mem_singleton, Piece.token.injEq,
          false_or] at inside
        exact inside ▸ ⟨some, word⟩
  rw [fillTemplate, fillInOneScan, dropped, shown_, fillTokens_pieces tokens free]

/-- The values of a greeting: a name that looks like a token, and no amount. -/
def greeting (key : JsString) : Option (Option JsString) :=
  if key = utf16 "name" then some (some (utf16 "{amount}")) else if key = utf16 "amount" then some none else none

/-- The name stays as it was typed. -/
theorem fillTemplate_in_one_scan_typed : FormsNoToken greeting (utf16 "{name} sent {amount}!") ∧
    fillTemplate greeting (utf16 "{name} sent {amount}!") = fillInOneScan greeting (utf16 "{name} sent {amount}!") ∧
    fillTemplate greeting (utf16 "{name} sent {amount}!") = utf16 "{amount} sent!" := by
  have free : FormsNoToken greeting (utf16 "{name} sent {amount}!") := by
    intro before key after _ _ _ split
    have braced : .unit openBrace ∈ pieces greeting (utf16 "{name} sent {amount}!") := by rw [split]; simp
    exact absurd braced (by decide +kernel)
  exact ⟨free, fillTemplate_in_one_scan free, by decide +kernel⟩

/-- An empty token within braces leaves another, and the second scan fills it. -/
theorem not_always_in_one_scan : ¬ ∀ values text, fillTemplate values text = fillInOneScan values text := by
  intro all
  have same := all (fun key => if key = utf16 "name" then some (some (utf16 "X")) else some none) (utf16 "{na{empty}me}")
  exact absurd same (by decide +kernel)

end Braidcast.Overlay.FillTemplate
