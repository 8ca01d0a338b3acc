import Braidcast.Lib.JsonText
import Braidcast.Overlay.StoredWidgets

/-!
# The page of a widget

`AssembleDocument` of `overlay/overlay_server.cpp`. The values of a widget are put into its page as JSON
inside a script, where a browser looks for the script's end before it reads any JSON.
-/
namespace Braidcast.Overlay.Store

open Lib

variable {ν : Type}

def kSoundFieldType : String := "sound-upload"

/-- The value is a path that the server rewrites. -/
def isAsset (s : String) : Bool := "assets/".toList.isPrefixOf s.toList

def assetUrl (w : Widget ν) (s : String) : List Char :=
  "/w/".toList ++ w.id.toList ++ ['/'] ++ s.toList ++ "?t=".toList ++ w.token.toList ++ "&r=".toList ++ (toString w.rev).toList

def rewritten (w : Widget ν) (value : JsonTree ν) : JsonTree ν :=
  match value with
  | .str s => if isAsset s then .str (String.ofList (assetUrl w s)) else .str s
  | value => value

def isServed (value : JsonTree ν) : Bool :=
  match value with
  | .str s => isAsset s
  | _ => false

def fieldData (w : Widget ν) (merged : List (String × JsonTree ν)) : List (String × JsonTree ν) :=
  merged.map fun field => (field.1, rewritten w field.2)

def servedKeys (merged : List (String × JsonTree ν)) : List String := (merged.filter fun field => isServed field.2).map Prod.fst

/-- `value(key, std::string())`, which throws where there is a value that is no string. -/
def stringValue (f : JsonTree ν) (key : String) : Option String :=
  match f.get? key with
  | none => some ""
  | some (.str s) => some s
  | some _ => none

/-- The field's sound, where it has one that the server rewrote. -/
def soundOf (fields : List (String × JsonTree ν)) (served : List String) (f : JsonTree ν) : Option (Option String) := do
  let type ← stringValue f "type"
  if type ≠ kSoundFieldType then return none
  let key ← stringValue f "key"
  if key ∉ served then return none
  match fields.lookup key with
  | some (.str url) => return some url
  | _ => return none

def addSound (fields : List (String × JsonTree ν)) (served : List String) (sounds : List String) (f : JsonTree ν) : Option (List String) :=
  match f with
  | .obj _ => (soundOf fields served f).map fun
    | some url => if url ∈ sounds then sounds else sounds ++ [url]
    | none => sounds
  | _ => some sounds

def soundUrls (schema : JsonTree ν) (fields : List (String × JsonTree ν)) (served : List String) : Option (List String) :=
  (items schema).foldlM (addSound fields served) []

def overlayJson (numerals : Numerals ν) (w : Widget ν) (port : Int) (fields : List (String × JsonTree ν)) (sounds : List String) : JsonTree ν :=
  .obj [("fields", .obj fields), ("id", .str w.id), ("port", .num (numerals.ofInt port)), ("sounds", .arr (sounds.map .str)), ("token", .str w.token)]

/-- The document up to the script that opens for `window.__OVERLAY__`. -/
def documentHead (resolved : ResolvedWidget ν) : List Char :=
  "<!doctype html><html><head><meta charset=\"utf-8\">\n<style>\n".toList ++ resolved.css.toList ++ "\n</style></head><body>\n".toList ++
    resolved.html.toList ++ "\n<script>".toList

/-- What is in that script. -/
def overlayScript (numerals : Numerals ν) (overlay : JsonTree ν) : List Char :=
  "window.__OVERLAY__=".toList ++ (overlay.dump numerals ++ ";".toList)

/-- The document from the script's end. `version` is the runtime's content hash, where it can be read. -/
def documentTail (resolved : ResolvedWidget ν) (token : String) (version : Option String) : List Char :=
  "</script>\n<script src=\"/runtime.js?t=".toList ++ token.toList ++ (version.elim [] fun hash => "&v=".toList ++ hash.toList) ++
    "\"></script>\n<script>\n".toList ++ resolved.js.toList ++ "\n</script>\n</body></html>".toList

def assembleDocument (numerals : Numerals ν) (templateFor : String → TypeTemplate ν) (version : Option String) (w : Widget ν) (port : Int) :
    Option (List Char) :=
  let resolved := resolve templateFor w
  let merged := mergeSettings resolved.schema w.settings
  (soundUrls resolved.schema (fieldData w merged) (servedKeys merged)).map fun sounds =>
    documentHead resolved ++ overlayScript numerals (overlayJson numerals w port (fieldData w merged) sounds) ++
      documentTail resolved w.token version

/-! ### What ends a script -/

/-- A letter in either case. -/
def letter (l : Char) : Char → Bool := fun c => c = l || c = l.toUpper

def anyCase (letters : List Char) : Word Char := letters.map letter

/-- "</script" ends a script, and "<!--" keeps its end from being seen. -/
def breaksOut (text : List Char) : Bool :=
  (anyCase ['<', '/', 's', 'c', 'r', 'i', 'p', 't']).occurs text || (anyCase ['<', '!', '-', '-']).occurs text

/-- Neither the id and the token nor any string that the settings give breaks out. -/
def Harmless (templateFor : String → TypeTemplate ν) (w : Widget ν) : Prop :=
  ∀ text ∈ w.id :: w.token :: (JsonTree.obj (mergeSettings (resolve templateFor w).schema w.settings)).texts, breaksOut text.toList = false

/-- What the two words have in common. -/
structure Marks (letters : List Char) : Prop where
  textual : JsonTree.Textual (letter '<') (anyCase letters)
  apart : ∀ c ∈ ['a', '?', '&', ';'], Word.Foreign (letter '<' :: anyCase letters) c
  last : ∀ q ∈ (letter '<' :: anyCase letters).getLast?, q '/' = false

theorem foreign_anyCase {letters : List Char} {c : Char} (other : ∀ l ∈ letters, c ≠ l ∧ c ≠ l.toUpper) : Word.Foreign (anyCase letters) c := by
  intro p member
  obtain ⟨l, there, rfl⟩ := List.mem_map.mp member
  simp [letter, other l there]

theorem foreign_of_all {cs : List Char} (letters : List Char)
    (other : cs.all (fun c => letters.all fun l => decide (c ≠ l ∧ c ≠ l.toUpper)) = true) : ∀ c ∈ cs, Word.Foreign (anyCase letters) c :=
  fun c member => foreign_anyCase (forall_mem_of_all (List.all_eq_true.mp other c member))

theorem textual_anyCase {letters : List Char}
    (printed : ∀ c ∈ ('<' :: letters).flatMap (fun l => [l, l.toUpper]),
      32 ≤ c.toNat ∧ c ∉ [quoteMark, backslash, ',', ':', '[', ']', '\x7b', '\x7d']) :
    JsonTree.Textual (letter '<') (anyCase letters) := by
  constructor
  · intro c first
    simpa [letter] using first
  · intro c special
    have other : ∀ l ∈ '<' :: letters, c ≠ l ∧ c ≠ l.toUpper := by
      refine fun l member => ⟨?_, ?_⟩
      · rintro rfl
        have known := printed c (List.mem_flatMap.mpr ⟨c, member, List.mem_cons_self⟩)
        exact special.elim (fun control => by omega) known.2
      · rintro rfl
        have known := printed l.toUpper (List.mem_flatMap.mpr ⟨l, member, List.mem_cons_of_mem _ List.mem_cons_self⟩)
        exact special.elim (fun control => by omega) known.2
    exact foreign_anyCase other

theorem marks_closing : Marks ['/', 's', 'c', 'r', 'i', 'p', 't'] where
  textual := textual_anyCase (forall_mem_of_all (by decide))
  apart := foreign_of_all ['<', '/', 's', 'c', 'r', 'i', 'p', 't'] (by decide)
  last := by simp [anyCase, letter]

theorem marks_comment : Marks ['!', '-', '-'] where
  textual := textual_anyCase (forall_mem_of_all (by decide))
  apart := foreign_of_all ['<', '!', '-', '-'] (by decide)
  last := by simp [anyCase, letter]

variable {letters : List Char}

/-- The word of the letters occurs. -/
def has (letters : List Char) (text : List Char) : Bool := Word.occurs (letter '<' :: anyCase letters) text

def anyHas (letters : List Char) (texts : List String) : Bool := JsonTree.anyHas (letter '<' :: anyCase letters) texts

theorem breaksOut_eq (text : List Char) : breaksOut text = (has ['/', 's', 'c', 'r', 'i', 'p', 't'] text || has ['!', '-', '-'] text) := rfl

/-- No word goes from one side of such a character to the other. -/
theorem Marks.has_append (marks : Marks letters) {xs ys : List Char} {c : Char} (cut : ys.head? = some c) (apart : c ∈ ['a', '?', '&', ';']) :
    has letters (xs ++ ys) = (has letters xs || has letters ys) := by
  cases ys with
  | nil => cases cut
  | cons c ys =>
    cases cut
    have foreign := marks.apart c apart
    rw [has, has, has, Word.occurs_append_cons foreign, Word.occurs_cons_of_foreign foreign]

variable {xs : List Char}

theorem Marks.has_of_ne (marks : Marks letters) (other : ∀ c ∈ xs, c ≠ '<') (ys : List Char) :
    has letters (xs ++ ys) = has letters ys :=
  Word.occurs_append_of_first (fun c member => marks.textual.ne_first (other c member)) ys

theorem Marks.has_nothing (marks : Marks letters) (other : ∀ c ∈ xs, c ≠ '<') : has letters xs = false :=
  marks.textual.occurs_of_ne other

theorem head?_append_of_eq {c : Char} (first : xs.head? = some c) (ys : List Char) : (xs ++ ys).head? = some c := by
  rw [List.head?_append, first]
  rfl

theorem digits_ne (n : Nat) : ∀ c ∈ (toString n).toList, c ≠ '<' := by
  rintro c member rfl
  exact absurd (Nat.isDigit_of_mem_toDigits (by decide) (by decide) (Nat.toList_repr ▸ member)) (by decide)

theorem numeral_ne (n : Int) : ∀ c ∈ (toString n).toList, c ≠ '<' := by
  cases n with
  | ofNat n => exact digits_ne n
  | negSucc n =>
    intro c member
    have written : (toString (Int.negSucc n)).toList = '-' :: (toString (n + 1)).toList := by
      rw [Int.toString_eq_repr, Int.repr]
      simp
    rw [written] at member
    rcases List.mem_cons.mp member with rfl | digit
    · decide
    · exact digits_ne (n + 1) c digit

/-- A path under the root, and what is asked of it. -/
theorem Marks.has_path (marks : Marks letters) (id : List Char) {root path query : List Char} (root_ne : ∀ c ∈ root, c ≠ '<')
    (begins : path.head? = some 'a') (asks : query.head? = some '?') :
    has letters (root ++ ((id ++ ['/']) ++ (path ++ query))) = (has letters id || (has letters path || has letters query)) := by
  have slash : has letters (id ++ ['/']) = has letters id := Word.occurs_concat marks.last _
  rw [marks.has_of_ne root_ne, marks.has_append (head?_append_of_eq begins query) (by decide), slash, marks.has_append asks (by decide)]

theorem Marks.has_query (marks : Marks letters) (token : List Char) {key revision digits : List Char} (key_ne : ∀ c ∈ key, c ≠ '<')
    (begins : revision.head? = some '&') (revision_ne : ∀ c ∈ revision, c ≠ '<') (digits_ne : ∀ c ∈ digits, c ≠ '<') :
    has letters (key ++ (token ++ (revision ++ digits))) = has letters token := by
  have nothing : has letters (revision ++ digits) = false := (marks.has_of_ne revision_ne digits).trans (marks.has_nothing digits_ne)
  rw [marks.has_of_ne key_ne, marks.has_append (head?_append_of_eq begins digits) (by decide), nothing, Bool.or_false]

theorem append_shape (root id slash path key token revision digits : List Char) :
    root ++ id ++ slash ++ path ++ key ++ token ++ revision ++ digits =
      root ++ ((id ++ slash) ++ (path ++ (key ++ (token ++ (revision ++ digits))))) := by
  simp only [List.append_assoc]

/-- A word in a rewritten path is in one of its parts. -/
theorem Marks.has_assetUrl (marks : Marks letters) (w : Widget ν) {s : String} (asset : isAsset s = true) :
    has letters (assetUrl w s) = (has letters w.id.toList || (has letters s.toList || has letters w.token.toList)) := by
  obtain ⟨rest, path⟩ := List.isPrefixOf_iff_prefix.mp asset
  have begins : s.toList.head? = some 'a' := by
    have first : "assets/".toList.head? = some 'a' := by decide
    exact path ▸ head?_append_of_eq first rest
  have root_ne : ∀ c ∈ "/w/".toList, c ≠ '<' := forall_mem_of_all (by decide)
  have key_ne : ∀ c ∈ "?t=".toList, c ≠ '<' := forall_mem_of_all (by decide)
  have revision_ne : ∀ c ∈ "&r=".toList, c ≠ '<' := forall_mem_of_all (by decide)
  have asks : "?t=".toList.head? = some '?' := by decide
  have revision : "&r=".toList.head? = some '&' := by decide
  have query := marks.has_query w.token.toList key_ne revision revision_ne (numeral_ne w.rev)
  have whole := marks.has_path w.id.toList root_ne begins (head?_append_of_eq asks (w.token.toList ++ ("&r=".toList ++ (toString w.rev).toList)))
  rw [query] at whole
  exact (congrArg (has letters) (append_shape ..)).trans whole

theorem texts_rewritten_str (w : Widget ν) (s : String) :
    (rewritten w (.str s : JsonTree ν)).texts = [if isAsset s then String.ofList (assetUrl w s) else s] := by
  unfold rewritten
  dsimp only
  split
  next => rfl
  next => rfl

theorem anyHas_singleton (letters : List Char) (text : String) : anyHas letters [text] = has letters text.toList := by
  simp only [anyHas, JsonTree.anyHas, has, List.any_cons, List.any_nil, Bool.or_false]

theorem anyHas_nil (letters : List Char) : anyHas letters [] = false := rfl

theorem anyHas_cons (letters : List Char) (text : String) (texts : List String) :
    anyHas letters (text :: texts) = (has letters text.toList || anyHas letters texts) := by
  simp only [anyHas, JsonTree.anyHas, has, List.any_cons]

theorem anyHas_append (letters : List Char) (xs ys : List String) : anyHas letters (xs ++ ys) = (anyHas letters xs || anyHas letters ys) :=
  JsonTree.anyHas_append ..

/-- The rewriting brings in nothing but the id and the token. -/
theorem Marks.has_rewritten (marks : Marks letters) (w : Widget ν) (value : JsonTree ν) :
    (anyHas letters (rewritten w value).texts || (has letters w.id.toList || has letters w.token.toList)) =
      (anyHas letters value.texts || (has letters w.id.toList || has letters w.token.toList)) := by
  cases value with
  | str s =>
    by_cases asset : isAsset s = true
    · have url : anyHas letters (rewritten w (.str s : JsonTree ν)).texts = has letters (assetUrl w s) := by
        rw [texts_rewritten_str, if_pos asset, anyHas_singleton, String.toList_ofList]
      have value : anyHas letters (JsonTree.str s : JsonTree ν).texts = has letters s.toList := by rw [JsonTree.texts, anyHas_singleton]
      rw [url, value, marks.has_assetUrl w asset]
      cases has letters w.id.toList <;> cases has letters s.toList <;> cases has letters w.token.toList <;> rfl
    · rw [texts_rewritten_str, if_neg asset, JsonTree.texts]
  | _ =>
    rw [rewritten]
    exact nofun

theorem Marks.has_fieldData (marks : Marks letters) (w : Widget ν) (merged : List (String × JsonTree ν)) :
    (anyHas letters (JsonTree.textsFields (fieldData w merged)) || (has letters w.id.toList || has letters w.token.toList)) =
      (anyHas letters (JsonTree.textsFields merged) || (has letters w.id.toList || has letters w.token.toList)) := by
  induction merged with
  | nil => rfl
  | cons field merged ih =>
    obtain ⟨key, value⟩ := field
    have first := marks.has_rewritten w value
    rw [fieldData, List.map_cons, JsonTree.textsFields, JsonTree.textsFields, anyHas_cons, anyHas_append, anyHas_cons, anyHas_append]
    rw [fieldData] at ih
    generalize (has letters w.id.toList || has letters w.token.toList) = others at first ih ⊢
    cases others with
    | true => rw [Bool.or_true, Bool.or_true]
    | false =>
      rw [Bool.or_false, Bool.or_false] at first ih ⊢
      rw [first, ih]

variable {fields : List (String × JsonTree ν)}

theorem mem_texts_of_lookup {key url : String} (there : fields.lookup key = some (.str url)) :
    url ∈ JsonTree.textsFields fields := by
  induction fields with
  | nil => cases there
  | cons field fields ih =>
    obtain ⟨k, value⟩ := field
    rw [JsonTree.textsFields]
    by_cases here : key = k
    · subst here
      rw [List.lookup_cons_self] at there
      cases there
      simp [JsonTree.texts]
    · rw [List.lookup_cons, beq_false_of_ne here] at there
      exact List.mem_cons_of_mem _ (List.mem_append_right _ (ih there))

theorem soundOf_mem {served : List String} {f : JsonTree ν} {url : String}
    (found : soundOf fields served f = some (some url)) : url ∈ JsonTree.textsFields fields := by
  obtain ⟨type, -, found⟩ := Option.bind_eq_some_iff.mp found
  split at found
  next => cases found
  obtain ⟨key, -, found⟩ := Option.bind_eq_some_iff.mp found
  split at found
  next => cases found
  split at found
  next there =>
    cases found
    exact mem_texts_of_lookup there
  next => cases found

/-- Every sound is the value of a field. -/
theorem addSound_mem {served sounds sounds' : List String} {f : JsonTree ν}
    (known : ∀ url ∈ sounds, url ∈ JsonTree.textsFields fields) (added : addSound fields served sounds f = some sounds') :
    ∀ url ∈ sounds', url ∈ JsonTree.textsFields fields := by
  unfold addSound at added
  split at added
  next =>
    obtain ⟨sound, found, rfl⟩ := Option.map_eq_some_iff.mp added
    split
    next url =>
      split
      next => exact known
      next =>
        intro other member
        rcases List.mem_append.mp member with old | new
        · exact known other old
        · exact List.mem_singleton.mp new ▸ soundOf_mem found
    next => exact known
  next => exact Option.some.inj added ▸ known

theorem soundUrls_mem {schema : JsonTree ν} {served sounds : List String}
    (listed : soundUrls schema fields served = some sounds) : ∀ url ∈ sounds, url ∈ JsonTree.textsFields fields := by
  have loop (rest : List (JsonTree ν)) (sounds' : List String) (known : ∀ url ∈ sounds', url ∈ JsonTree.textsFields fields)
      (done : rest.foldlM (addSound fields served) sounds' = some sounds) : ∀ url ∈ sounds, url ∈ JsonTree.textsFields fields := by
    induction rest generalizing sounds' with
    | nil =>
      cases done
      exact known
    | cons f rest ih =>
      rw [List.foldlM_cons] at done
      obtain ⟨next, added, done⟩ := Option.bind_eq_some_iff.mp done
      exact ih next (addSound_mem known added) done
  exact loop (items schema) [] (fun _ member => nomatch member) listed

theorem anyHas_subset {xs ys : List String} (subset : ∀ text ∈ xs, text ∈ ys) : (anyHas letters ys || anyHas letters xs) = anyHas letters ys := by
  cases there : anyHas letters xs with
  | false => exact Bool.or_false _
  | true =>
    obtain ⟨text, member, occurs⟩ := List.any_eq_true.mp there
    have also : anyHas letters ys = true := List.any_eq_true.mpr ⟨text, subset text member, occurs⟩
    rw [also, Bool.or_true]

theorem textsItems_map_str (texts : List String) : JsonTree.textsItems (texts.map (JsonTree.str : String → JsonTree ν)) = texts := by
  induction texts with
  | nil => rfl
  | cons text texts ih => rw [List.map_cons, JsonTree.textsItems, JsonTree.texts, ih, List.singleton_append]

theorem texts_overlayJson (numerals : Numerals ν) (w : Widget ν) (port : Int) (fields : List (String × JsonTree ν)) (sounds : List String) :
    (overlayJson numerals w port fields sounds).texts = "fields" :: (JsonTree.textsFields fields ++
      "id" :: w.id :: "port" :: "sounds" :: (sounds ++ ["token", w.token])) := by
  simp only [overlayJson, JsonTree.texts, JsonTree.textsFields, textsItems_map_str, List.nil_append, List.singleton_append]

/-- The words in what is dumped are those of the settings, the id and the token. -/
theorem Marks.has_overlayJson (marks : Marks letters) (numerals : Numerals ν) (w : Widget ν) (port : Int) (merged : List (String × JsonTree ν))
    {sounds : List String} (known : ∀ url ∈ sounds, url ∈ JsonTree.textsFields (fieldData w merged)) :
    anyHas letters (overlayJson numerals w port (fieldData w merged) sounds).texts = anyHas letters (w.id :: w.token :: JsonTree.textsFields merged) := by
  have names : ∀ name ∈ ["fields", "id", "port", "sounds", "token"], has letters name.toList = false := by
    have plain : ∀ c ∈ ["fields", "id", "port", "sounds", "token"].flatMap String.toList, c ≠ '<' := forall_mem_of_all (by decide)
    exact fun name member => marks.has_nothing fun c inside => plain c (List.mem_flatMap.mpr ⟨name, member, inside⟩)
  simp only [List.forall_mem_cons] at names
  obtain ⟨fields, id, port', sounds', token, -⟩ := names
  have values := marks.has_fieldData w merged
  have heard : (anyHas letters (JsonTree.textsFields (fieldData w merged)) || anyHas letters sounds) = _ := anyHas_subset known
  simp only [texts_overlayJson, anyHas_cons, anyHas_append, anyHas_nil, Bool.or_false, fields, id, port', sounds', token, Bool.false_or]
  generalize anyHas letters (JsonTree.textsFields (fieldData w merged)) = written at values heard ⊢
  generalize anyHas letters sounds = played at heard ⊢
  generalize anyHas letters (JsonTree.textsFields merged) = given at values ⊢
  generalize has letters w.id.toList = own at values ⊢
  generalize has letters w.token.toList = secret at values ⊢
  revert values heard
  revert written played given own secret
  decide

theorem Marks.has_statement (marks : Marks letters) (value : List Char) {start stop : List Char} (start_ne : ∀ c ∈ start, c ≠ '<')
    (ends : stop.head? = some ';') (stop_ne : ∀ c ∈ stop, c ≠ '<') : has letters (start ++ (value ++ stop)) = has letters value := by
  rw [marks.has_of_ne start_ne, marks.has_append ends (by decide), marks.has_nothing stop_ne, Bool.or_false]

theorem Marks.has_overlayScript (marks : Marks letters) (numerals : Numerals ν) (overlay : JsonTree ν) :
    has letters (overlayScript numerals overlay) = anyHas letters overlay.texts := by
  have assigns : ∀ c ∈ "window.__OVERLAY__=".toList, c ≠ '<' := forall_mem_of_all (by decide)
  have ends : ";".toList.head? = some ';' := by decide
  have end_ne : ∀ c ∈ ";".toList, c ≠ '<' := forall_mem_of_all (by decide)
  exact (marks.has_statement _ assigns ends end_ne).trans (marks.textual.occurs_dump numerals overlay)

theorem breaksOut_texts (texts : List String) : (∀ text ∈ texts, breaksOut text.toList = false) ↔
    (anyHas ['/', 's', 'c', 'r', 'i', 'p', 't'] texts || anyHas ['!', '-', '-'] texts) = false := by
  induction texts with
  | nil => simp [anyHas, JsonTree.anyHas]
  | cons text texts ih =>
    rw [List.forall_mem_cons, ih, breaksOut_eq, anyHas_cons, anyHas_cons]
    cases has ['/', 's', 'c', 'r', 'i', 'p', 't'] text.toList <;> cases has ['!', '-', '-'] text.toList <;> simp

/-- What the settings are shows in the script of the page only, and they are kept in it if and only if
none of their strings breaks out. -/
theorem kept_in_script_iff (numerals : Numerals ν) (templateFor : String → TypeTemplate ν) (version : Option String) (w : Widget ν) (port : Int)
    (doc : List Char) (built : assembleDocument numerals templateFor version w port = some doc) :
    ∃ script, doc = documentHead (resolve templateFor w) ++ script ++ documentTail (resolve templateFor w) w.token version ∧
      (breaksOut script = false ↔ Harmless templateFor w) := by
  obtain ⟨sounds, listed, rfl⟩ := Option.map_eq_some_iff.mp built
  refine ⟨_, rfl, ?_⟩
  have known := soundUrls_mem listed
  rw [Harmless, breaksOut_texts, breaksOut_eq, marks_closing.has_overlayScript, marks_comment.has_overlayScript,
    marks_closing.has_overlayJson numerals w port _ known, marks_comment.has_overlayJson numerals w port _ known, JsonTree.texts]

theorem assembleDocument_eq (numerals : Numerals ν) (templateFor : String → TypeTemplate ν) (version : Option String) (w : Widget ν) (port : Int)
    (sounds : List String) (listed : soundUrls (resolve templateFor w).schema (fieldData w (mergeSettings (resolve templateFor w).schema w.settings))
      (servedKeys (mergeSettings (resolve templateFor w).schema w.settings)) = some sounds) :
    assembleDocument numerals templateFor version w port = some (documentHead (resolve templateFor w) ++ overlayScript numerals
      (overlayJson numerals w port (fieldData w (mergeSettings (resolve templateFor w).schema w.settings)) sounds) ++
        documentTail (resolve templateFor w) w.token version) := by
  rw [assembleDocument, listed, Option.map_some]

def decimals : Numerals Int := ⟨id, fun n => (toString n).toList, numeral_ne⟩

/-- A forked widget with one field and its value. -/
def titled (title : String) : Widget Int :=
  ⟨"w1", "t1", "Title", "labels", .obj [("title", .str title)], some ⟨"", "", "", .arr [.obj [("key", .str "title")]]⟩, [], 0⟩

/-- No template is shipped. -/
def noTemplates (_ : String) : TypeTemplate Int := ⟨.absent, "", "", "", .arr []⟩

theorem markup_kept_in_script : ∃ doc script, assembleDocument decimals noTemplates none (titled "<b>live</b>") 43000 = some doc ∧
    doc = documentHead (resolve noTemplates (titled "<b>live</b>")) ++ script ++
      documentTail (resolve noTemplates (titled "<b>live</b>")) "t1" none ∧ breaksOut script = false := by
  have built := assembleDocument_eq decimals noTemplates none (titled "<b>live</b>") 43000 [] (by decide)
  obtain ⟨script, whole, kept⟩ := kept_in_script_iff decimals noTemplates none (titled "<b>live</b>") 43000 _ built
  have texts : (JsonTree.obj (mergeSettings (resolve noTemplates (titled "<b>live</b>")).schema (titled "<b>live</b>").settings)).texts =
      ["title", "<b>live</b>"] := by decide
  refine ⟨_, script, built, whole, kept.mpr ?_⟩
  rw [Harmless, texts]
  decide

/-- A title that ends the script. -/
theorem not_always_kept_in_script : ¬ ∀ (numerals : Numerals Int) (templateFor : String → TypeTemplate Int) (version : Option String)
    (w : Widget Int) (port : Int) (doc : List Char), assembleDocument numerals templateFor version w port = some doc →
      ∃ script, doc = documentHead (resolve templateFor w) ++ script ++ documentTail (resolve templateFor w) w.token version ∧
        breaksOut script = false := by
  intro claimed
  have built := assembleDocument_eq decimals noTemplates none (titled "</SCRIPT>") 43000 [] (by decide)
  obtain ⟨script, whole, kept⟩ := claimed decimals noTemplates none (titled "</SCRIPT>") 43000 _ built
  have same := List.append_cancel_left (List.append_cancel_right whole)
  have breaks : breaksOut (overlayScript decimals (overlayJson decimals (titled "</SCRIPT>") 43000 (fieldData (titled "</SCRIPT>")
      (mergeSettings (resolve noTemplates (titled "</SCRIPT>")).schema (titled "</SCRIPT>").settings)) [])) = true := by decide
  rw [same, kept] at breaks
  cases breaks

end Braidcast.Overlay.Store
