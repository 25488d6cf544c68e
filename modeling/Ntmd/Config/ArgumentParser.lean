/-
The command line, `config/ArgumentParser`.

The arguments are taken one after the other; an option with a value takes the argument
after it as well, whatever that looks like.  What a path names is the environment's.
-/
import Ntmd.Lib.Scanf

namespace Ntmd

open Bytes Scanf

/-- What `std::filesystem::is_regular_file` says of a path, none when it throws. -/
structure FileSystem where
  isRegularFile : Bytes → Option Bool
  /-- An empty path names nothing. -/
  empty_path : isRegularFile [] = some false

/-- The fields of `ArgumentParser`. -/
structure Args where
  daemon : Bool := false
  debug : Bool := false
  configPath : Bytes := []
  interval : Option Int32 := none
  interface : Option Bytes := none
  dbPath : Option Bytes := none
  serverPort : Option UInt16 := none
  deriving DecidableEq, Repr

/-- The ways the constructor ends the program. -/
inductive ArgError
  /-- `std::exit`. -/
  | exit (code : Nat)
  /-- An exception of `is_regular_file`. -/
  | uncaught
  deriving DecidableEq, Repr

namespace Args

variable (fs : FileSystem)

/-- `-i`, `--interval` -/
def setInterval (args : Args) (value : Bytes) : Except ArgError Args :=
  match stoi value with
  | .ok n => .ok { args with interval := some n }
  | .error _ => .error (.exit 2)

/-- `-p`, `--port`; the number is converted to `uint16_t`. -/
def setPort (args : Args) (value : Bytes) : Except ArgError Args :=
  match stoi value with
  | .ok n => .ok { args with serverPort := some (UInt16.ofInt n.toInt) }
  | .error _ => .error (.exit 2)

/-- `-c`, `--config` -/
def setConfig (args : Args) (value : Bytes) : Except ArgError Args :=
  match fs.isRegularFile value with
  | none => .error .uncaught
  | some false => .error (.exit 2)
  | some true => .ok { args with configPath := value }

/-- `--interface` -/
def setInterface (args : Args) (value : Bytes) : Except ArgError Args :=
  .ok { args with interface := some value }

/-- `--db-path`; a file that is not there will be created. -/
def setDbPath (args : Args) (value : Bytes) : Except ArgError Args :=
  match fs.isRegularFile value with
  | none => .error .uncaught
  | some _ => .ok { args with dbPath := some value }

/-- The options that take a value, and what they do with it. -/
def setter (arg : Bytes) : Option (Args → Bytes → Except ArgError Args) :=
  if arg = ascii "-i" ∨ arg = ascii "--interval" then some setInterval
  else if arg = ascii "-p" ∨ arg = ascii "--port" then some setPort
  else if arg = ascii "-c" ∨ arg = ascii "--config" then some (setConfig fs)
  else if arg = ascii "--interface" then some setInterface
  else if arg = ascii "--db-path" then some (setDbPath fs)
  else none

/-- The loop over the arguments. -/
def parse (args : Args) : List Bytes → Except ArgError Args
  | [] => .ok args
  | arg :: rest =>
      if arg = ascii "-h" ∨ arg = ascii "--help" then .error (.exit 0)
      else if arg = ascii "--daemon" then parse { args with daemon := true } rest
      else if arg = ascii "-x" ∨ arg = ascii "--debug" then parse { args with debug := true } rest
      else
        match setter fs arg with
        | none => .error (.exit 2)
        | some set =>
            match rest with
            | [] => .error (.exit 2)
            | value :: rest =>
                match set args value with
                | .error e => .error e
                | .ok args => parse args rest

end Args

end Ntmd
