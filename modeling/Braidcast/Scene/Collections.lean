import Braidcast.Lib.Files
import Braidcast.Lib.Run
import Braidcast.Multistream.StoreFiles

/-!
# Scene collections and their files

A collection is a record in the index with a scene file; its output bindings and scene links
are siblings of that file. The scenes, bindings and links of the active collection are in
memory; a switch writes them out and loads those of the collection switched to. Every file
operation succeeds. File names are those the file system tells apart as they are spelled.
-/
namespace Braidcast.Scene

open Lib Multistream

/-! ### File names -/

def slugRuns : Bool → List Char → List Char
  | _, [] => []
  | lastHyphen, c :: rest =>
    -- a run of other characters becomes one hyphen
    if c.isAlphanum then c.toLower :: slugRuns false rest
    else if lastHyphen then slugRuns true rest
    else '-' :: slugRuns true rest

def slugify (name : String) : List Char :=
  let trimmed := (slugRuns false name.toList).dropWhile (· = '-')
  let slug := (trimmed.reverse.dropWhile (· = '-')).reverse
  if slug = [] then "collection".toList else slug

def stripSuffix (s suffix : String) : String :=
  if suffix.toList.isSuffixOf s.toList then String.ofList (s.toList.take (s.toList.length - suffix.toList.length)) else s

def bindingsRelFor (sceneRel : String) : String :=
  stripSuffix sceneRel ".json" ++ ".output_bindings.json"

def sceneLinksRelFor (sceneRel : String) : String :=
  stripSuffix sceneRel ".json" ++ ".scene_links.json"

/-- The three stores a collection has. -/
inductive StoreKind
  | scene
  | bindings
  | links
  deriving DecidableEq

namespace StoreKind

def all : List StoreKind :=
  [.scene, .bindings, .links]

def rel (sceneRel : String) : StoreKind → String
  | .scene => sceneRel
  | .bindings => bindingsRelFor sceneRel
  | .links => sceneLinksRelFor sceneRel

end StoreKind

def bak (rel : String) : String :=
  rel ++ ".bak"

/-! ### Store files -/

section

variable {α : Type}

/-- A store is written: the file it replaces becomes its backup. -/
def saveStore (files : Files String (Content α)) (rel : String) (state : α) : Files String (Content α) :=
  match files.read rel with
  | some old => (files.write (bak rel) old).write rel (.whole state)
  | none => files.write rel (.whole state)

/-- `obs_data_create_from_json_file_safe`: where the file does not parse its backup takes its
place. -/
def restoreStore (files : Files String (Content α)) (rel : String) : Files String (Content α) :=
  match createFromJsonFile (files.read rel) with
  | some _ => files
  | none => files.move (bak rel) rel

/-- What a load of the store gives. -/
def loadStore (files : Files String (Content α)) (rel : String) : Option α :=
  createFromJsonFile ((restoreStore files rel).read rel)

/-- The load found files and could use none. The copy it keeps aside has a name no store has. -/
def unusable (files : Files String (Content α)) (rel : String) : Bool :=
  (loadStore files rel).isNone && ((restoreStore files rel).read rel).isSome

def copyRel (files : Files String (Content α)) (source target : String) : Files String (Content α) :=
  match files.read source with
  | none => files
  -- `os_copyfile` does not overwrite
  | some content => if (files.read target).isSome then files else files.write target content

end

/-! ### Collections -/

structure SceneCollectionRecord where
  id : String
  name : String
  sceneFile : String
  deriving DecidableEq

/-- `memory` is what a save of each store would write. `hold` is the fallback that stands in
memory for an unusable file: a save of it is skipped. `issued` lists every id given out. -/
structure SceneCollections (α : Type) where
  collections : List SceneCollectionRecord
  activeId : String
  files : Files String (Content α)
  memory : StoreKind → α
  hold : StoreKind → Option α := fun _ => none
  issued : List String := []

inductive CollectionStep (α : Type)
  | create (name id : String)
  | duplicate (sourceId name id : String)
  | rename (id name : String)
  | switch (id : String) (live : Bool)
  | remove (id : String) (live : Bool)
  | edit (kind : StoreKind) (state : α)
  | save (kind : StoreKind)
  deriving DecidableEq

namespace SceneCollections

variable {α : Type} [DecidableEq α]

def find (s : SceneCollections α) (id : String) : Option SceneCollectionRecord :=
  s.collections.find? fun c => c.id = id

def active (s : SceneCollections α) : Option SceneCollectionRecord :=
  match s.find s.activeId with
  | some c => some c
  | none => s.collections.head?

/-- The active collection's file of a store, or the legacy one. -/
def activeRel (s : SceneCollections α) (kind : StoreKind) : String :=
  kind.rel (match s.active with
    | some c => c.sceneFile
    | none => "scene_collection.json")

/-! #### Saving and loading the active collection -/

def save (s : SceneCollections α) (kind : StoreKind) : SceneCollections α :=
  -- nothing has changed since the unusable file was found: it stays for a repair
  if s.hold kind = some (s.memory kind) then s
  else
    { s with
      files := saveStore s.files (s.activeRel kind) (s.memory kind)
      hold := fun k => if k = kind then none else s.hold k }

def saveAll (s : SceneCollections α) : SceneCollections α :=
  ((s.save .scene).save .bindings).save .links

variable (fallback : StoreKind → α) (hasSources : α → Bool)

/-- The state a load leaves in memory: a scene file without sources comes up as the default
scene. -/
def comesUp (kind : StoreKind) : Option α → α
  | some state => if kind = .scene ∧ hasSources state = false then fallback kind else state
  | none => fallback kind

def load (s : SceneCollections α) (kind : StoreKind) : SceneCollections α :=
  let state := comesUp fallback hasSources kind (loadStore s.files (s.activeRel kind))
  { s with
    files := restoreStore s.files (s.activeRel kind)
    memory := fun k => if k = kind then state else s.memory k
    hold := fun k =>
      if k = kind then (if unusable s.files (s.activeRel kind) then some state else none) else s.hold k }

def loadAll (s : SceneCollections α) : SceneCollections α :=
  ((s.load fallback hasSources .scene).load fallback hasSources .bindings).load fallback hasSources .links

/-! #### The operations -/

/-- The scene file name with the given number of suffix. -/
def sceneFileFor (name : String) (suffix : Nat) : String :=
  String.ofList ("scenes/".toList ++ slugify name ++
    (if suffix = 0 then [] else '-' :: (Nat.repr (suffix + 1)).toList) ++ ".json".toList)

def clashes (s : SceneCollections α) (rel : String) : Bool :=
  s.collections.any (·.sceneFile = rel) || (s.files.read rel).isSome

/-- The loop has one try more than there are names that can clash. -/
def uniqueSceneFileForName (s : SceneCollections α) (name : String) : Option String :=
  firstFree (sceneFileFor name) s.clashes (s.collections.length + s.files.length + 1) 0

def create (s : SceneCollections α) (name id : String) : Option (SceneCollections α × SceneCollectionRecord) :=
  (s.uniqueSceneFileForName name).map fun sceneFile =>
    ({ s with collections := s.collections ++ [{ id, name, sceneFile }], issued := id :: s.issued }, { id, name, sceneFile })

def renameFirst (id name : String) : List SceneCollectionRecord → Option (List SceneCollectionRecord)
  | [] => none
  | c :: rest => if c.id = id then some ({ c with name } :: rest) else (renameFirst id name rest).map (c :: ·)

def rename (s : SceneCollections α) (id name : String) : Option (SceneCollections α) :=
  (renameFirst id name s.collections).map fun collections => { s with collections }

def noSuchCollection (id : String) : String :=
  "no scene collection with id '" ++ id ++ "'"

/-- The source's stores as `Duplicate` finds them: the active collection's are saved first. -/
def flushed (s : SceneCollections α) (source : SceneCollectionRecord) : SceneCollections α :=
  if source.id = s.activeId then s.saveAll else s

def duplicate (s : SceneCollections α) (sourceId name id : String) :
    Option (Except String (SceneCollections α × SceneCollectionRecord)) :=
  match s.find sourceId with
  | none => some (.error (noSuchCollection sourceId))
  | some source =>
    ((s.flushed source).create name id).map fun p =>
      let copied := StoreKind.all.foldl (fun files kind => copyRel files (kind.rel source.sceneFile) (kind.rel p.2.sceneFile)) p.1.files
      .ok ({ p.1 with files := copied }, p.2)

def switch (s : SceneCollections α) (id : String) (live : Bool) : Except String (SceneCollections α) :=
  if id = s.activeId then .ok s
  else
    match s.find id with
    | none => .error (noSuchCollection id)
    | some _ =>
      -- the encoders of a running output hold on to the scenes
      if live then .error "cannot switch scene collection while live"
      else .ok ({ s.saveAll with activeId := id }.loadAll fallback hasSources)

/-- The record is deleted with its scene file. -/
def drop (s : SceneCollections α) (record : SceneCollectionRecord) : SceneCollections α :=
  -- the bindings, the links and the backups stay
  { s with
    collections := s.collections.erase record
    files := s.files.delete record.sceneFile }

def remove (s : SceneCollections α) (id : String) (live : Bool) : Except String (SceneCollections α) :=
  match s.find id with
  | none => .error (noSuchCollection id)
  | some record =>
    if s.collections.length = 1 then .error "cannot remove the last remaining scene collection"
    else if id = s.activeId then
      -- the scenes on air are those of the collection to go: another is opened first
      let target := match s.collections.find? fun c => c.id ≠ id with
        | some c => c.id
        | none => ""
      match s.switch fallback hasSources target live with
      | .error error => .error error
      | .ok switched =>
        match switched.find id with
        | none => .error (noSuchCollection id)
        | some record => .ok (switched.drop record)
    else .ok (s.drop record)

/-- A request that is refused leaves everything as it was. A new record takes an id never
given out before. -/
def step (s : SceneCollections α) : CollectionStep α → Option (SceneCollections α)
  | .create name id => if id ∈ s.issued then none else (s.create name id).map Prod.fst
  | .duplicate sourceId name id =>
    if id ∈ s.issued then none
    else (s.duplicate sourceId name id).map fun answer => match answer with
      | .ok p => p.1
      | .error _ => s
  | .rename id name => some ((s.rename id name).getD s)
  | .switch id live => some (match s.switch fallback hasSources id live with
    | .ok t => t
    | .error _ => s)
  | .remove id live => some (match s.remove fallback hasSources id live with
    | .ok t => t
    | .error _ => s)
  | .edit kind state => some { s with memory := fun k => if k = kind then state else s.memory k }
  | .save kind => some (s.save kind)

/-- `Load`, the seed of an empty list and the load of the active collection at start: records
without an id or a scene file are dropped, and an active id of no record is the first's. -/
def boot (index : List SceneCollectionRecord) (active seedId : String) (files : Files String (Content α)) : SceneCollections α :=
  let kept := index.filter fun c => c.id ≠ "" ∧ c.sceneFile ≠ ""
  let collections := if kept = [] then [{ id := seedId, name := "Untitled", sceneFile := "scene_collection.json" }] else kept
  let activeId := if (collections.map (·.id)).contains active then active else ((collections.head?).map (·.id)).getD active
  { collections, activeId, files, memory := fallback, issued := collections.map (·.id) : SceneCollections α }.loadAll
    fallback hasSources

end SceneCollections

end Braidcast.Scene
