/-
The start of the program, `main.cpp`: from the command line to the settings it runs with.

Only the settings are made here; the rest of the program is given them.
-/
import Ntmd.Config.Config

namespace Ntmd

open Bytes

/-- The path of the file without the option for another. -/
def defaultPath : Bytes := ascii "/etc/ntmd.conf"

/-- The path the constructor of `Config` takes the file from. -/
def filePath (configPath : Bytes) : Bytes :=
  if configPath ≠ [] then configPath else defaultPath

/-- What there is on the disk: the contents of the files, none for one that cannot be opened. -/
structure Disk extends FileSystem where
  contents : Bytes → Option Bytes

/-- The text of the file, none when there is no regular one. -/
def Disk.openConfig (disk : Disk) (path : Bytes) : Except ArgError (Option Bytes) :=
  match disk.isRegularFile path with
  | none => .error .uncaught
  | some false => .ok none
  | some true =>
      match disk.contents path with
      | none => .error (.exit 1)
      | some text => .ok (some text)

/-- What `main` has made, and what it has written to the file of the path. -/
structure Configured where
  args : Args
  cfg : Config
  path : Bytes
  written : Bytes
  deriving DecidableEq, Repr

/-- `main` up to the settings; `argv` is without the name of the program. -/
def configure (disk : Disk) (argv : List Bytes) : Except ArgError Configured :=
  match Args.parse disk.toFileSystem {} argv with
  | .error e => .error e
  | .ok args =>
      let path := filePath args.configPath
      match disk.openConfig path with
      | .error e => .error e
      | .ok file =>
          match Config.start disk.toFileSystem file with
          | none => .error .uncaught
          | some (cfg, written) => .ok { args, cfg := cfg.mergeArgs args, path, written }

end Ntmd
