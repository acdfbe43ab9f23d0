import Swayr.Kit.Overlay
import Swayr.Kit.Text
import Swayr.Kit.Transducer
import Swayr.Shared.Fmt

/-!
# Icons of applications (`util.rs`)

Sway reports an application's id but not its icon, which `get_app_id_to_icon_map`
looks up in the desktop files of the system. The file system is what the code
asks of it: which paths are files, and what the folders and the desktop files
hold, in the order in which they are read.
-/

namespace Swayr.Icons

open Shared

/-! ## Paths -/

/-- `PathBuf::push`. -/
def pathPush (dir name : Text) : Text :=
  if name.head? = some '/' then name
  else if dir.isEmpty || dir.getLast? = some '/' then dir ++ name
  else dir ++ '/' :: name

/-- `Path::file_name`: the last component, unless it is `..`. -/
def fileName (path : Text) : Option Text :=
  (((path.splitOn '/').filter fun c => !c.isEmpty && c != ['.']).getLast?).filter (· != ['.', '.'])

/-- A file name's stem and extension: it is split at its last dot, unless there is
none behind the first character. -/
def splitExtension (name : Text) : Option (Text × Text) :=
  match name.reverse.dropWhile (· != '.') with
  | '.' :: c :: stem => some ((c :: stem).reverse, (name.reverse.takeWhile (· != '.')).reverse)
  | _ => none

/-- `find_icon`. -/
def findIcon (isFile : Text → Bool) (iconDirs : List Text) (iconName : Text) : Option Text :=
  if isFile iconName then some iconName
  else
    (iconDirs.flatMap fun dir =>
      ["png".toList, "svg".toList].map fun ext =>
        pathPush dir (iconName ++ '.' :: ext)).find? isFile

/-! ## The lines of a desktop file -/

inductive Key
  | startupWMClass | icon
deriving DecidableEq, Repr

def Key.text : Key → Text
  | .startupWMClass => "StartupWMClass".toList
  | .icon => "Icon".toList

/-- A match of `<key>=(.+)` at the front of a text. -/
def valueAt (key : Key) (s : Text) : Option Text :=
  if (key.text ++ ['=']).isPrefixOf s then
    let value := (s.drop (key.text.length + 1)).takeWhile (· != '\n')
    if value.isEmpty then none else some value
  else none

/-- The groups of the leftmost match of `(StartupWMClass|Icon)=(.+)`, which need not
be at the front of the line. -/
def wmClassOrIcon : Text → Option (Key × Text)
  | [] => none
  | c :: s =>
      ((valueAt .startupWMClass (c :: s)).map fun v => (.startupWMClass, v)).or
        (((valueAt .icon (c :: s)).map fun v => (.icon, v)).or (wmClassOrIcon s))

/-- What a line says. -/
inductive Reading
  | wmClass (value : Text)
  /-- An icon that was found. -/
  | icon (path : Text)
deriving DecidableEq, Repr

/-- A line that is no text is skipped, and so is an icon that is not found. -/
def readLine (find : Text → Option Text) (line : Option Text) : Option Reading :=
  match line.bind wmClassOrIcon with
  | some (.startupWMClass, value) => some (.wmClass value)
  | some (.icon, value) => (find value).map .icon
  | none => none

/-- The variables of the line loop. -/
structure Found where
  wmClass : Option Text
  icon : Option Text
deriving DecidableEq, Repr

def Found.note (found : Found) : Reading → Found
  | .wmClass value => { found with wmClass := some value }
  | .icon path => { found with icon := some path }

/-- The line loop: it is left when both are known, and overwrites either until
then. -/
def scanLines (find : Text → Option Text) (found : Found) : List (Option Text) → Found
  | [] => found
  | line :: rest =>
      if found.wmClass.isSome && found.icon.isSome then found
      else scanLines find ((readLine find line).elim found found.note) rest

/-- The class and the icon of a desktop file; without an icon nothing is kept. -/
def recordOf (find : Text → Option Text) (lines : List (Option Text)) :
    Option (Option Text × Text) :=
  let found := scanLines find ⟨none, none⟩ lines
  found.icon.map fun icon => (found.wmClass, icon)

/-! ## The map -/

/-- An entry of a folder. -/
structure DirEntry where
  folder : Text
  name : Text
  isFile : Bool
  /-- The lines, `none` for one that is no text, if the file can be opened. -/
  lines : Option (List (Option Text))
deriving DecidableEq, Repr

def DirEntry.isDesktop (e : DirEntry) : Bool :=
  e.isFile && (splitExtension e.name).any fun p => p.2 == "desktop".toList

/-- `desktop_entries`; the folders are those that can be read, in order. -/
def desktopEntries (folders : List (List DirEntry)) : List DirEntry :=
  folders.flatMap fun folder => folder.filter DirEntry.isDesktop

/-- The path's last component once the extension is removed. `with_extension` keeps what
is in front of the extension and then drops the dot, but of `..desktop` that is `..`,
which is no file name and stays. -/
def DirEntry.desktopFileName (e : DirEntry) : Option Text :=
  (splitExtension e.name).bind fun p =>
    if p.1 = ['.'] then none else fileName (pathPush e.folder p.1)

/-- The capture of `^(?:[a-zA-Z0-9-]+\.)+([a-zA-Z0-9-]+)$`. -/
def revDomainName (name : Text) : Option Text :=
  let labels := name.splitOn '.'
  if 2 ≤ labels.length ∧
      labels.all (fun l => !l.isEmpty && l.all fun c => c.isAlphanum || c == '-') = true then
    labels.getLast?
  else none

abbrev IconMap := Text → Option Text

def IconMap.insert (map : IconMap) (appId icon : Text) : IconMap :=
  fun k => if k = appId then some icon else map k

/-- The keys an entry is entered under, in order. -/
def entryKeys (wmClass : Option Text) (desktopFileName : Text) : List Text :=
  wmClass.toList ++ (revDomainName desktopFileName).toList ++ [desktopFileName]

/-- One entry; `none` is a panic, when the path has no file name. -/
def insertEntry (find : Text → Option Text) (map : IconMap) (e : DirEntry) : Option IconMap :=
  match e.lines.bind (recordOf find) with
  | some (wmClass, icon) =>
      e.desktopFileName.map fun name =>
        (entryKeys wmClass name).foldl (fun map appId => map.insert appId icon) map
  | none => some map

/-- `get_app_id_to_icon_map`. -/
def getAppIdToIconMap (isFile : Text → Bool) (iconDirs : List Text)
    (folders : List (List DirEntry)) : Option IconMap :=
  (desktopEntries folders).foldlM (insertEntry (findIcon isFile iconDirs)) fun _ => none

/-! ## The cache -/

/-- A call of `get_icon`, with the file system as it is then. -/
structure IconCall where
  appId : Text
  iconDirs : List Text
  isFile : Text → Bool
  folders : List (List DirEntry)

/-- The map that the call would make. -/
def IconCall.scan (c : IconCall) : Option IconMap :=
  getAppIdToIconMap c.isFile c.iconDirs c.folders

/-- `APP_ID_TO_ICON_MAP`; a panic while it is locked poisons it. -/
inductive IconCache
  | empty
  | filled (map : IconMap)
  | poisoned

/-- `get_icon`; `none` is a panic. -/
def getIcon : IconCache → IconCall → IconCache × Option (Option Text)
  | .empty, c =>
      match c.scan with
      | some map => (.filled map, some (map c.appId))
      | none => (.poisoned, none)
  | .filled map, c => (.filled map, some (map c.appId))
  | .poisoned, _ => (.poisoned, none)

/-- The calls of `get_icon` in the life of a process. -/
def iconCalls : Kit.Transducer IconCache IconCall (Option (Option Text)) where
  step cache c := ((getIcon cache c).1, [(getIcon cache c).2])

end Swayr.Icons
