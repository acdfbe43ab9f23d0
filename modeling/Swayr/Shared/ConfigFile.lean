import Swayr.Kit.Files
import Swayr.Kit.Guarded
import Swayr.Shared.Fmt

/-!
# Loading the configuration (`shared/cfg.rs`)

`swayrd` and every `swayrbar` load their configuration from a file that the first
of them creates. Several programs may do so at the same time (a sway configuration
starts one `swayrbar` per bar), so a load is modelled by its single calls to the
file system, between which the other programs' calls come.
-/

namespace Swayr.Shared

open Kit

def configToml : Text := "config.toml".toList

/-- The file below `/etc/xdg`. -/
def sysConfigFile (project : Text) : FileName Text :=
  ⟨["etc".toList, "xdg".toList, project], configToml⟩

/-- Where a project's config files are. `configDir` is the `config_dir` of its
`ProjectDirs`; the system's file is not one of the directories above it. -/
structure Places where
  project : Text
  configDir : List Text
  apart : ¬ (sysConfigFile project).path <+: configDir

namespace Places

variable (places : Places)

def sysFile : FileName Text := sysConfigFile places.project

def userFile : FileName Text := ⟨places.configDir, configToml⟩

end Places

/-- What the user may do with the files, which does not change while programs load. The
directories can be searched, so `exists` is right about what there is. -/
structure Access where
  mayRead : List Text → Bool
  /-- Open for writing, or create. -/
  mayWrite : List Text → Bool
  mayCreateDir : List Text → Bool
  /-- There is room for a new content. -/
  hasRoom : Bool

/-- A call that fails if it is not permitted. -/
def permit {α : Type} (may : Bool) (call : Option α) : Option α :=
  if may then call else none

section Permit

variable {α : Type} {may : Bool} {call : Option α}

theorem permit_eq_some {a : α} : permit may call = some a ↔ may = true ∧ call = some a := by
  cases may <;> simp [permit]

theorem permit_eq_none : permit may call = none ↔ may = false ∨ call = none := by
  cases may <;> simp [permit]

end Permit

namespace Access

variable (acc : Access) (fs : Files Text UInt8)

def createDirAll (p : List Text) : Option (Files Text UInt8) :=
  permit (acc.mayCreateDir p) (fs.createDirAll p)

def openFile (f : FileName Text) : Option (Files Text UInt8) :=
  permit (acc.mayWrite f.path) (fs.openFile f)

def write (f : FileName Text) (content : List UInt8) : Option (Files Text UInt8) :=
  permit acc.hasRoom (fs.write f content)

/-- The `open` for reading and the reading. -/
def read (p : List Text) : Option (List UInt8) :=
  permit (acc.mayRead p) (fs.content p)

end Access

/-- A type of configurations with its default and its way to and from TOML. `none`
is an error: of `to_string_pretty`, of `read_to_string` if a file is no UTF-8, and of
`from_str`. -/
structure Toml (T : Type) where
  default : T
  toStringPretty : T → Option (List UInt8)
  readToString : List UInt8 → Option Text
  fromStr : Text → Option T

/-- What `load_config_file` makes of a file's bytes: a panic, or a configuration,
the default one if the text is invalid. -/
def Toml.parse {T : Type} (toml : Toml T) (bytes : List UInt8) : Option T :=
  (toml.readToString bytes).map fun buf => (toml.fromStr buf).getD toml.default

/-- Who has called `get_config_file_path`; `save_config` is called by `load_config`
for a path of its own. -/
inductive Caller
  | loadConfig
  | saveConfig (path : FileName Text)
deriving DecidableEq

/-- The next call of a program that loads its configuration. -/
inductive Loader (T : Type)
  /-- `user_config_dir.exists()`. -/
  | userDirExists (caller : Caller)
  /-- `sys_config_file.exists()`. -/
  | sysFileExists (caller : Caller)
  /-- `DirBuilder::new().recursive(true).create(user_config_dir)`. -/
  | createDir (caller : Caller)
  /-- `path.exists()` in `load_config`. -/
  | pathExists (path : FileName Text)
  /-- The `open` in `save_config`, of a path it has got itself. -/
  | openSaved (path saved : FileName Text)
  | writeAll (path saved : FileName Text) (content : List UInt8)
  /-- `config_file.exists()` in `load_config_file`. -/
  | fileExists (path : FileName Text)
  /-- The `open` and `read_to_string` in `load_config_file`. -/
  | read (path : FileName Text)
  | done (cfg : T)
  | panicked
deriving DecidableEq

/-- Where `get_config_file_path` returns to. -/
def Caller.goOn {T : Type} (p : FileName Text) : Caller → Loader T
  | .loadConfig => .pathExists p
  | .saveConfig path => .openSaved path p

namespace Loader

variable {T : Type}

/-- What `load_config` has returned: a configuration, or a panic. -/
def result : Loader T → Option (Option T)
  | .done cfg => some (some cfg)
  | .panicked => some none
  | _ => none

/-- One call. The content that is saved is short enough for `write_all` to write it at
once or not at all; `swaynag` is spawned before `load_config_file` and nobody waits for
it. -/
def step (places : Places) (acc : Access) (toml : Toml T) (fs : Files Text UInt8) :
    Loader T → Option (Loader T × Files Text UInt8)
  | .userDirExists caller =>
      some (if fs.present places.configDir then caller.goOn places.userFile
        else .sysFileExists caller, fs)
  | .sysFileExists caller =>
      some (if fs.present places.sysFile.path then caller.goOn places.sysFile
        else .createDir caller, fs)
  | .createDir caller =>
      some (match acc.createDirAll fs places.configDir with
        | some fs' => (caller.goOn places.userFile, fs')
        | none => (.panicked, fs))
  | .pathExists path =>
      some (if fs.present path.path then .fileExists path
        else .userDirExists (.saveConfig path), fs)
  | .openSaved path saved =>
      some (match toml.toStringPretty toml.default with
        | none => (.panicked, fs)
        | some content =>
            match acc.openFile fs saved with
            | some fs' => (.writeAll path saved content, fs')
            | none => (.panicked, fs))
  | .writeAll path saved content =>
      some (match acc.write fs saved content with
        | some fs' => (.fileExists path, fs')
        | none => (.panicked, fs))
  | .fileExists path =>
      some (if fs.present path.path then .read path else .panicked, fs)
  | .read path =>
      some (match (acc.read fs path.path).bind toml.parse with
        | some cfg => .done cfg
        | none => .panicked, fs)
  | .done _ | .panicked => none

/-- The call of `load_config`. `ProjectDirs` finds no places if there is no home
directory, which is a panic. -/
def start (places : Option Places) : Loader T :=
  if places.isSome then .userDirExists .loadConfig else .panicked

end Loader

/-- Programs of one project, by number, and the files they share. -/
structure LoadState (T : Type) where
  fs : Files Text UInt8
  loaders : Nat → Loader T

/-- Each program calls `load_config`. -/
def LoadState.start {T : Type} (places : Option Places) (fs : Files Text UInt8) : LoadState T :=
  ⟨fs, fun _ => .start places⟩

/-- The loads, in any order of their calls: a label is the number of the program that
makes its next call. -/
def loading {T : Type} (places : Option Places) (acc : Access) (toml : Toml T) :
    Guarded (LoadState T) Nat where
  step s i :=
    places.bind fun places =>
      ((s.loaders i).step places acc toml s.fs).map fun (l, fs) =>
        ⟨fs, Function.update s.loaders i l⟩

end Swayr.Shared
