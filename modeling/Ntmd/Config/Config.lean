/-
The configuration, `config/Config`.

The constructor reads the items of a file into a map, each of its settings from the map,
and then writes the file anew from the settings.  What it logs on the way is left out.
-/
import Mathlib.Data.List.AList
import Ntmd.Config.ArgumentParser
import Ntmd.Util.StringUtil

namespace Ntmd

open Bytes Scanf

/-- The settings, with their defaults. -/
structure Config where
  interval : Int32 := 10
  interface : Bytes := []
  promiscuous : Bool := false
  immediate : Bool := false
  dbPath : Bytes := []
  processCacheSize : Int32 := 5
  serverPort : UInt16 := 13889
  deriving DecidableEq, Repr

namespace Config

abbrev Items := AList fun _ : Bytes => Bytes

/-- The lines that `std::getline` finds in a text; the last may be without a newline. -/
def getlines (text : Bytes) : List Bytes := split text 10

/-- The item a line sets, none in a comment, in the title of a section and without a `=`. -/
def itemOf (line : Bytes) : Option (Bytes × Bytes) :=
  match line with
  | [] => none
  | c :: rest =>
      if c = 35 ∨ c = 91 then none
      else if 61 ∈ c :: rest then
        some (trim ((c :: rest).takeWhile (· != 61)),
          trim (((c :: rest).dropWhile (· != 61)).drop 1))
      else none

/-- The body of the loop over the lines. -/
def readLine (items : Items) (line : Bytes) : Items :=
  match itemOf line with
  | none => items
  | some (key, value) => items.insert key value

/-- The loop over the lines. -/
def readItems (text : Bytes) : Items := (getlines text).foldl readLine ∅

/-- A setting that is a number; an item that `std::stoi` refuses is ignored. -/
def numItem {α : Type} (items : Items) (key : Bytes) (convert : Int32 → α) (current : α) : α :=
  match items.lookup key with
  | none => current
  | some text =>
      match stoi text with
      | .ok n => convert n
      | .error _ => current

/-- A setting that is a truth value; an item that is none is ignored. -/
def boolItem (items : Items) (key : Bytes) (current : Bool) : Bool :=
  match items.lookup key with
  | none => current
  | some text => (stringToBool (strToLower text)).getD current

/-- A setting that is a text. -/
def textItem (items : Items) (key : Bytes) (current : Bytes) : Bytes :=
  (items.lookup key).getD current

def defaults : Config := {}

/-- The settings that the items of a file make. -/
def ofItems (items : Items) : Config where
  interval := numItem items (ascii "interval") id defaults.interval
  interface := textItem items (ascii "interface") defaults.interface
  promiscuous := boolItem items (ascii "promiscuous") defaults.promiscuous
  immediate := boolItem items (ascii "immediate") defaults.immediate
  dbPath := textItem items (ascii "dbPath") defaults.dbPath
  serverPort := numItem items (ascii "port") (fun n => UInt16.ofInt n.toInt) defaults.serverPort
  processCacheSize := numItem items (ascii "processCacheSize") id defaults.processCacheSize

/-- The settings that a text makes, none when the check of its `dbPath` throws. -/
def ofText (fs : FileSystem) (text : Bytes) : Option Config :=
  let items := readItems text
  match items.lookup (ascii "dbPath") with
  | none => some (ofItems items)
  | some path => (fs.isRegularFile path).map fun _ => ofItems items

/-- A setting in the file, and the lines that stand between it and the one before. -/
structure Entry where
  comment : List Bytes
  key : Bytes
  value : Bytes

/-- `key = value` -/
def Entry.item (e : Entry) : Bytes := e.key ++ (ascii " = " ++ e.value)

def Entry.lines (e : Entry) : List Bytes := e.comment ++ [e.item]

def boolText (b : Bool) : Bytes := if b then ascii "true" else ascii "false"

/-- What `writeConfig` writes. -/
def entries (c : Config) : List Entry :=
  [{ comment :=
      [ascii "#ntmd generated config file.",
       [],
       ascii "[ntmd]",
       [],
       ascii "#Interval in seconds at which buffered network traffic in memory will be deposited to database.",
       ascii "#Must be an integer value."]
     key := ascii "interval", value := decimalInt c.interval.toInt },
   { comment :=
      [[],
       ascii "#Size for the process index LRU cache, leave default if unsure.",
       ascii "#If you expect for many longrunning programs to use sockets frequently, increase the cache size to include those programs.",
       ascii "#If you expect for many new programs to spawn, create sockets, then close (per second), you may want a lower cache size or none at all (0).",
       ascii "#In most cases the default will be good for both situations."]
     key := ascii "processCacheSize", value := decimalInt c.processCacheSize.toInt },
   { comment :=
      [[],
       ascii "[network]",
       [],
       ascii "#Network interface to be search for for ntmd to monitor traffic on. If value left empty ntmd will use the first device found.",
       ascii "#An example network interface could be eth0"]
     key := ascii "interface", value := c.interface },
   { comment :=
      [[],
       ascii "[pcap]",
       [],
       ascii "#Enable or disable promiscuous mode while sniffing packets."]
     key := ascii "promiscuous", value := boolText c.promiscuous },
   { comment :=
      [[],
       ascii "#Enable or disable immediate mode while sniffing packets.",
       ascii "#Immediate mode turned on will greatly increase average CPU usage but may decrease the amount of unmatched packets."]
     key := ascii "immediate", value := boolText c.immediate },
   { comment :=
      [[],
       ascii "[database]",
       [],
       ascii "#Path to the database file that will be used for reading and writing application network traffic.",
       ascii "#If left empty the default for is /var/lib/ntmd.db"]
     key := ascii "dbPath", value := c.dbPath },
   { comment :=
      [[],
       ascii "[api]",
       [],
       ascii "#Port for socket server to be hosted on (16 bit unsigned)."]
     key := ascii "port", value := decimalInt c.serverPort.toNat }]

/-- The text of `writeConfig`. -/
def text (c : Config) : Bytes := (c.entries.flatMap Entry.lines).flatMap (· ++ [10])

/-- The constructor, for the file of the path and none when there is no regular one: the settings,
and what it leaves in the file. -/
def start (fs : FileSystem) (file : Option Bytes) : Option (Config × Bytes) :=
  match file with
  | none => some (defaults, defaults.text)
  | some content => (ofText fs content).map fun c => (c, c.text)

/-- `mergeArgs` -/
def mergeArgs (c : Config) (args : Args) : Config :=
  { c with
    interval := args.interval.getD c.interval
    interface := args.interface.getD c.interface
    dbPath := args.dbPath.getD c.dbPath
    serverPort := args.serverPort.getD c.serverPort }

end Config

end Ntmd
