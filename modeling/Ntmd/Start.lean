/-
The whole of `main` before its loop: from the command line and what is found on the
host to the program that begins.

The objects are made one after the other, and each of them may end the program.  The
constructor of `Sniffer` is here as well: its members first, and then the device, the
handle of libpcap and the local addresses.  Its threads are started while the rest is
still being made, but they have nothing to work on before the loop.
-/
import Ntmd.Daemon
import Ntmd.Main

namespace Ntmd

open Bytes

/-- What the program finds where it is started. -/
structure Machine where
  /-- The effective user is root. -/
  root : Bool
  disk : Disk
  /-- What `sqlite3_open` finds or makes at a path, none when it fails. -/
  openDatabase : Bytes → Option Database
  /-- The names that `pcap_findalldevs` lists, none when it fails. -/
  findAllDevs : Option (List Bytes)
  /-- Whether `pcap_create` gives a handle for a device. -/
  create : Bytes → Bool
  /-- Whether `pcap_activate` is without an error and without a warning. -/
  activate : Bytes → Bool
  getifaddrs : Option (List IfAddr)
  net : ProcNet
  proc : Proc

/-- The ways the program ends before its loop. -/
inductive StartError
  | settings (e : ArgError)
  /-- `std::exit`. -/
  | exit (code : Nat)
  | index (c : Crash)
  | addresses (e : IPList.InitError)
  deriving DecidableEq, Repr

/-- The path that the constructor of `DBController` opens. -/
def databasePath (dbPath : Bytes) : Bytes :=
  if dbPath = [] then ascii "/var/lib/ntmd.db" else dbPath

namespace Sniffer

/-- `findDevice`: the device with the name, and the first one without a name. -/
def findDevice (device : Bytes) (findAllDevs : Option (List Bytes)) : Except StartError Bytes :=
  match findAllDevs with
  | none => .error (.exit 1)
  | some devices =>
      match if device ≠ [] then devices.find? fun name => name = cstr device else devices.head? with
      | none => .error (.exit 1)
      | some name => .ok name

end Sniffer

/-- What `main` has made when it comes to its loop. -/
structure Started where
  settings : Configured
  device : Bytes
  program : Program

/-- `main` up to its loop; `argv` is without the name of the program. -/
def start (machine : Machine) (argv : List Bytes) : Except StartError Started :=
  if !machine.root then .error (.exit 4)
  else
    match configure machine.disk argv with
    | .error e => .error (.settings e)
    | .ok settings =>
        match machine.openDatabase (cstr (databasePath settings.cfg.dbPath)) with
        | none => .error (.exit 1)
        | some db =>
            match ProcessIndex.init settings.cfg.processCacheSize machine.proc with
            | .error c => .error (.index c)
            | .ok processes =>
                match Sniffer.findDevice settings.cfg.interface machine.findAllDevs with
                | .error e => .error e
                | .ok device =>
                    if !machine.create device || !machine.activate device then .error (.exit 1)
                    else
                      match IPList.init device machine.getifaddrs with
                      | .error e => .error (.addresses e)
                      | .ok iplist =>
                          let resolver : ProcessResolver :=
                            { mSocketIndex := SocketIndex.init machine.net, mProcessIndex := processes }
                          .ok
                            { settings := settings
                              device := device
                              program :=
                                Program.init iplist resolver settings.cfg.interval db }

end Ntmd
