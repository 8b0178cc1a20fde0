import PointNetwork.Js.Path
import PointNetwork.Storage.FileRead

/-!
# Directories

`uploadDir` and `getFileIdByPath` of `client/storage/index.ts`. `uploadDir` uploads the entries
of a directory concurrently; each puts its line into the listing when it is done, and the
listing, as JSON text, is uploaded as a file, whose id is that of the directory.

* `Schedule` says in which order the entries of each directory get done;
* `uploadDir` gives the id of the directory and the listings uploaded on the way;
* `getFileIdByPath` looks a path up, one listing at a time.

The rows of `DirMap` and the progress of the uploads are left out here.
-/

namespace PointNetwork.Storage

open Js

/-! ## What is on disk -/

/-- A file or a directory with its entries. -/
inductive Tree
  | file (contents : Bytes)
  | dir (entries : List (JsString × Tree))

mutual

/-- `calculateDirSize`. -/
def calculateDirSize : Tree → ℕ
  | .file contents => contents.length
  | .dir entries => totalSize entries

/-- The sum of the sizes of some entries. -/
def totalSize : List (JsString × Tree) → ℕ
  | [] => 0
  | (_, t) :: rest => calculateDirSize t + totalSize rest

end

mutual

/-- No directory has two entries of one name. -/
def Tree.NamesDistinct : Tree → Prop
  | .file _ => True
  | .dir entries => (entries.map Prod.fst).Nodup ∧ NamesDistinctAll entries

/-- The names are distinct in each subtree. -/
def NamesDistinctAll : List (JsString × Tree) → Prop
  | [] => True
  | (_, t) :: rest => t.NamesDistinct ∧ NamesDistinctAll rest

end

/-- The entry that a list of names leads to. -/
def findEntry : List (JsString × Tree) → List JsString → Option Tree
  | _, [] => none
  | entries, [name] => entries.lookup name
  | entries, name :: names =>
    match entries.lookup name with
    | some (.dir entries) => findEntry entries names
    | _ => none

/-! ## Listings -/

/-- `FILE_TYPE`. -/
inductive FileType
  | fileptr
  | dirptr
  deriving DecidableEq

/-- The text of a type in the JSON of a directory. -/
def FileType.text : FileType → JsString
  | fileptr => js "fileptr"
  | dirptr => js "dirptr"

/-- `FileInfo`. -/
structure FileInfo where
  type : FileType
  name : JsString
  size : ℕ
  id : JsString
  deriving DecidableEq

/-- `DirInfo`, whose `type` is always `'dir'`. -/
structure DirInfo where
  files : List FileInfo
  deriving DecidableEq

/-- The object for an entry of a directory. -/
def FileInfo.toJson (info : FileInfo) : Json :=
  .obj [(js "type", .str info.type.text), (js "name", .str info.name),
    (js "size", .num (.ofInt info.size)), (js "id", .str info.id)]

/-- The object for a directory. -/
def DirInfo.toJson (info : DirInfo) : Json :=
  .obj [(js "type", .str (js "dir")), (js "files", .arr (info.files.map FileInfo.toJson))]

section

variable (H : HashFn) (C : ℕ)

/-- The id of an uploaded file. -/
def fileId (buf : Bytes) : JsString := (fileChunks H C buf).1

/-- `uploadData(JSON.stringify(dirInfo))`. -/
def dirId (info : DirInfo) : JsString := fileId H C info.toJson.encode

/-! ## `uploadDir` -/

/-- The order in which the entries of the directory at a path put their lines into the
listing. -/
structure Schedule where
  pushed : List JsString → List FileInfo → List FileInfo
  pushed_perm : ∀ path infos, (pushed path infos).Perm infos

/-- What `uploadDir` does when all entries are done: the id and the listings uploaded. -/
def finishDir (σ : Schedule) (path : List JsString)
    (results : List FileInfo × List DirInfo) : JsString × List DirInfo :=
  let dirInfo : DirInfo := ⟨σ.pushed path results.1⟩
  (dirId H C dirInfo, dirInfo :: results.2)

mutual

/-- The callback of `files.map` for one entry: its line, and the listings uploaded for it. -/
def uploadEntry (σ : Schedule) (path : List JsString) (name : JsString) :
    Tree → FileInfo × List DirInfo
  | .file contents => (⟨.fileptr, name, contents.length, fileId H C contents⟩, [])
  | .dir entries =>
    let dir := finishDir H C σ (path ++ [name]) (uploadEntries σ (path ++ [name]) entries)
    (⟨.dirptr, name, totalSize entries, dir.1⟩, dir.2)

/-- The lines of all entries, in the order of `readdir`, and the listings uploaded for them. -/
def uploadEntries (σ : Schedule) (path : List JsString) :
    List (JsString × Tree) → List FileInfo × List DirInfo
  | [] => ([], [])
  | (name, t) :: rest =>
    let entry := uploadEntry σ path name t
    let others := uploadEntries σ path rest
    (entry.1 :: others.1, entry.2 ++ others.2)

end

/-- `uploadDir` of the directory at `path` with these entries. -/
def uploadDir (σ : Schedule) (path : List JsString) (entries : List (JsString × Tree)) :
    JsString × List DirInfo :=
  finishDir H C σ path (uploadEntries H C σ path entries)

/-- The id that a run gives to what it uploads from a path. -/
def treeId (σ : Schedule) (path : List JsString) : Tree → JsString
  | .file contents => fileId H C contents
  | .dir entries => (uploadDir H C σ path entries).1

end

/-! ## `getFileIdByPath` -/

/-- `/[/\\]/`. -/
def isSeparator (u : UInt16) : Bool := u = Path.slash || u = 0x5C

/-- `filePath.split(/[/\\]/).filter(s => s !== '')`. -/
def segments (filePath : JsString) : List JsString :=
  (filePath.splitOnP isSeparator).filter (· ≠ [])

/-- A string in an error message. -/
def messageText (s : JsString) : String := String.ofList ((codePoints s).map Char.ofNat)

/-- `getFileIdByPath`, given what `getJSON` returns for the id of a listing. The fuel bounds the
number of listings that are read. -/
def getFileIdByPathFuel (getJSON : JsString → Except Exception DirInfo) :
    ℕ → JsString → JsString → Except Exception JsString
  | 0, _, _ => .error .outOfFuel
  | fuel + 1, dirId, filePath => do
    let directory ← getJSON dirId
    let notFound (reason : String) : Exception :=
      .httpNotFound ("Failed to find file " ++ messageText filePath ++ " in directory " ++
        messageText dirId ++ ": " ++ reason)
    match segments filePath with
    -- `segments[0]` is `undefined`, which is no file's name
    | [] => throw (notFound "not found")
    | segment :: rest =>
      match directory.files.find? fun f => f.name = segment with
      | none => throw (notFound "not found")
      | some nextFileOrDir =>
        if rest = [] then pure nextFileOrDir.id
        else if nextFileOrDir.type = .fileptr then
          throw (notFound (messageText segment ++ " is not a directory"))
        else getFileIdByPathFuel getJSON fuel nextFileOrDir.id (Path.join rest)

/-- `getFileIdByPath`: each listing read uses up a segment of the path. -/
def getFileIdByPath (getJSON : JsString → Except Exception DirInfo) (dirId filePath : JsString) :
    Except Exception JsString :=
  getFileIdByPathFuel getJSON ((segments filePath).length + 1) dirId filePath

end PointNetwork.Storage
