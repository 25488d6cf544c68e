/-
From the command line to the tables.

A start that succeeds has chosen a device and a database by the settings, and has put
the addresses of the device into the list that every packet is compared with.  So which
frames come to the tables, and to which tables, is said by the command line and the
file (`started_runsAsTold`): those from or to an address of the device that was chosen.
-/
import Ntmd.Proofs.LocalAddresses
import Ntmd.Proofs.Losses
import Ntmd.Proofs.Precedence
import Ntmd.Start

namespace Ntmd

open Bytes Run

/-- The device that a setting names: the one with that name, or the first of all for no name. -/
def Chosen (interface : Bytes) (devices : List Bytes) (device : Bytes) : Prop :=
  (interface = [] ∧ devices.head? = some device) ∨
    (interface ≠ [] ∧ device = cstr interface ∧ device ∈ devices)

theorem findDevice_ok_iff {interface device : Bytes} {findAllDevs : Option (List Bytes)} :
    Sniffer.findDevice interface findAllDevs = .ok device ↔
      ∃ devices, findAllDevs = some devices ∧ Chosen interface devices device := by
  cases findAllDevs with
  | none => simp [Sniffer.findDevice]
  | some devices =>
      by_cases hname : interface = []
      · subst hname
        cases devices <;> simp [Sniffer.findDevice, Chosen]
      · have hfind : devices.find? (fun name => name = cstr interface) = some device ↔
            device = cstr interface ∧ device ∈ devices := by
          constructor
          · intro h
            have hp := List.find?_some h
            exact ⟨of_decide_eq_true hp, List.mem_of_find?_eq_some h⟩
          · rintro ⟨rfl, hmem⟩
            have hsome : (devices.find? fun name => name = cstr interface).isSome = true :=
              List.find?_isSome.mpr ⟨cstr interface, hmem, decide_eq_true rfl⟩
            obtain ⟨found, hfound⟩ := Option.isSome_iff_exists.mp hsome
            have hp := List.find?_some hfound
            rw [hfound, of_decide_eq_true hp]
        cases hdevices : devices.find? (fun name => name = cstr interface) with
        | none =>
            rw [hdevices] at hfind
            have hnot : ¬ (device = cstr interface ∧ device ∈ devices) := fun h => by
              simpa using hfind.mpr h
            simp only [Sniffer.findDevice, hname, ne_eq, not_false_eq_true, if_true, hdevices,
              Chosen, false_and, false_or, true_and]
            simpa using hnot
        | some found =>
            rw [hdevices] at hfind
            simpa [Sniffer.findDevice, hname, hdevices, Chosen] using hfind

/-- What a start that succeeds has found. -/
structure Starts (machine : Machine) (argv : List Bytes) (started : Started) (iplist : IPList)
    (resolver : ProcessResolver) (db : Database) : Prop where
  root : machine.root = true
  settings : configure machine.disk argv = .ok started.settings
  database : machine.openDatabase (cstr (databasePath started.settings.cfg.dbPath)) = some db
  device : ∃ devices, machine.findAllDevs = some devices ∧
    Chosen started.settings.cfg.interface devices started.device
  opened : machine.create started.device = true ∧ machine.activate started.device = true
  addresses : IPList.init started.device machine.getifaddrs = .ok iplist
  program : started.program =
    Program.init iplist resolver started.settings.cfg.interval db

theorem starts_of_start {machine : Machine} {argv : List Bytes} {started : Started}
    (h : start machine argv = .ok started) :
    ∃ iplist resolver db, Starts machine argv started iplist resolver db := by
  unfold start at h
  split at h
  · exact absurd h (by simp)
  rename_i hroot
  split at h
  · exact absurd h (by simp)
  rename_i settings hsettings
  split at h
  · exact absurd h (by simp)
  rename_i db hdb
  split at h
  · exact absurd h (by simp)
  rename_i processes hprocesses
  split at h
  · exact absurd h (by simp)
  rename_i device hdevice
  split at h
  · exact absurd h (by simp)
  rename_i hopened
  split at h
  · exact absurd h (by simp)
  rename_i iplist hiplist
  obtain rfl := Except.ok.inj h
  exact ⟨iplist, _, db,
    { root := by simpa using hroot
      settings := hsettings
      database := hdb
      device := findDevice_ok_iff.mp hdevice
      opened := by simpa using hopened
      addresses := hiplist
      program := rfl }⟩

/-! ### The settings of a start -/

section

variable {disk : Disk} {argv : List Bytes} {made : Configured} (h : configure disk argv = .ok made)
include h

theorem interface_precedence :
    Precedence argv [ascii "--interface"] (disk.lines made.path) (ascii "interface") some []
      made.cfg.interface := by
  obtain ⟨hparses, -, file, cfg, hfile, hstart, hmerge⟩ := configure_eq_ok h
  rw [hmerge, cfg_of_start hfile hstart]
  show Precedence _ _ _ _ _ _ (made.args.interface.getD (Config.textItem _ _ []))
  rw [textItem_eq]
  exact precedence_merge ArgField.interface hparses rfl _ _ _

theorem dbPath_precedence :
    Precedence argv [ascii "--db-path"] (disk.lines made.path) (ascii "dbPath") some []
      made.cfg.dbPath := by
  obtain ⟨hparses, -, file, cfg, hfile, hstart, hmerge⟩ := configure_eq_ok h
  rw [hmerge, cfg_of_start hfile hstart]
  show Precedence _ _ _ _ _ _ (made.args.dbPath.getD (Config.textItem _ _ []))
  rw [textItem_eq]
  exact precedence_merge ArgField.dbPath hparses rfl _ _ _

end

/-- The list contains the addresses of the device, if it has any. -/
theorem contains_of_init {device : Bytes} {getifaddrs : Option (List IfAddr)} {iplist : IPList}
    (h : IPList.init device getifaddrs = .ok iplist) :
    ∃ interfaces, getifaddrs = some interfaces ∧
      (IPList.entryAddresses device interfaces ≠ [] → iplist.contains =
        fun ip => decide (ip ∈ IPList.entryAddresses device interfaces)) := by
  cases getifaddrs with
  | none => exact absurd h (by simp [IPList.init])
  | some interfaces =>
      refine ⟨interfaces, rfl, fun hsome => ?_⟩
      by_cases hroom : (IPList.entryAddresses device interfaces).length ≤ 64
      · obtain ⟨l, hinit, hsize, hperm⟩ := IPList.addresses_init hroom
        obtain rfl := Except.ok.inj (h.symm.trans hinit)
        have hpos : 0 < iplist.mSize := by
          rw [hsize]
          exact List.length_pos_of_ne_nil hsome
        funext ip
        rw [Bool.eq_iff_iff, decide_eq_true_iff, IPList.contains_iff hpos, hperm.mem_iff]
      · rw [IPList.init_overflow (Nat.lt_of_not_le hroom)] at h
        exact absurd h (by simp)

/-- The device and the database are those that the command line or else the file names, and every run
adds to the database the frames from or to an address of the device, but for what it loses at its
end. -/
def RunsAsTold (w : Writers) (machine : Machine) (argv : List Bytes) (started : Started) : Prop :=
  ∃ iplist resolver interface devices interfaces dbPath db,
    Precedence argv [ascii "--interface"] (machine.disk.lines started.settings.path)
      (ascii "interface") some [] interface ∧
    machine.findAllDevs = some devices ∧ Chosen interface devices started.device ∧
    machine.getifaddrs = some interfaces ∧
    Precedence argv [ascii "--db-path"] (machine.disk.lines started.settings.path) (ascii "dbPath")
      some [] dbPath ∧
    machine.openDatabase (cstr (databasePath dbPath)) = some db ∧
    started.program = Program.init iplist resolver started.settings.cfg.interval db ∧
    (IPList.entryAddresses started.device interfaces ≠ [] →
      ∀ names mine steps,
        let life : Life := ⟨iplist, resolver, started.settings.cfg.interval, steps⟩
        life.Recorded w db → life.AttributedAs w names mine db →
          (life.leaves w db).book.history names (fun _ => true) + life.lost w names db =
            db.book.history names (fun _ => true) + fun c =>
              Sniffer.counted (fun ip => ip ∈ IPList.entryAddresses started.device interfaces) c
                ((life.taken w db).filter mine))

/-- **From the command line to the tables**, for every command line, file and host on which the
program comes to its loop. -/
theorem started_runsAsTold (w : Writers) (machine : Machine) (argv : List Bytes) (started : Started)
    (h : start machine argv = .ok started)
    (hsound : ∀ path db, machine.openDatabase path = some db → db.Sound) :
    RunsAsTold w machine argv started := by
  obtain ⟨iplist, resolver, db, hstarts⟩ := starts_of_start h
  obtain ⟨devices, hdevices, hchosen⟩ := hstarts.device
  obtain ⟨interfaces, hinterfaces, hcontains⟩ := contains_of_init hstarts.addresses
  refine ⟨iplist, resolver, _, devices, interfaces, _, db, interface_precedence hstarts.settings,
    hdevices, hchosen, hinterfaces, dbPath_precedence hstarts.settings, hstarts.database,
    hstarts.program, ?_⟩
  intro hsome names mine steps life hrecorded hmine
  have hcounted : life.counted w mine db = fun c =>
      Sniffer.counted (fun ip => ip ∈ IPList.entryAddresses started.device interfaces) c
        ((life.taken w db).filter mine) := by
    funext c
    show Sniffer.counted iplist.contains c _ = _
    rw [hcontains hsome]
  rw [← hcounted]
  exact Life.accounted_life (hsound _ _ hstarts.database) hrecorded hmine

/-- A host with two devices, and a file that sets no interface. -/
def smallMachine : Machine where
  root := true
  disk := portLinesDisk
  openDatabase _ := some Database.empty
  findAllDevs := some [ascii "eth0", ascii "tun0"]
  create _ := true
  activate _ := true
  getifaddrs := some (⟨ascii "tun0", some ⟨afInet, localEnd.ip⟩⟩ :: IPList.eth0)
  net := fun _ => none
  proc := { entries := some [], fdExists := fun _ => false, pidDir := fun _ => ⟨none, none, .replicate 80 0⟩ }

def tun0Interface : List Bytes := [ascii "--interface", ascii "tun0"]

theorem start_tun0 : ∃ started, start smallMachine tun0Interface = .ok started ∧
    started.device = ascii "tun0" := by
  have hmade : (configure portLinesDisk tun0Interface).toOption.map (fun made =>
      made.cfg.interface) = some (ascii "tun0") := by
    decide
  cases hconfigure : configure portLinesDisk tun0Interface with
  | error e =>
      rw [hconfigure] at hmade
      exact absurd hmade (by simp [Except.toOption])
  | ok made =>
      rw [hconfigure] at hmade
      have hinterface : made.cfg.interface = ascii "tun0" := Option.some.inj hmade
      have hdevice : Sniffer.findDevice made.cfg.interface smallMachine.findAllDevs =
          .ok (ascii "tun0") := by
        rw [hinterface]
        rfl
      obtain ⟨iplist, hiplist⟩ : ∃ l, IPList.init (ascii "tun0") smallMachine.getifaddrs = .ok l := ⟨_, rfl⟩
      obtain ⟨processes, hprocesses⟩ : ∃ s,
          ProcessIndex.init made.cfg.processCacheSize smallMachine.proc = .ok s := ⟨_, rfl⟩
      refine ⟨⟨made, ascii "tun0", Program.init iplist ⟨SocketIndex.init smallMachine.net, processes⟩
        made.cfg.interval Database.empty⟩, ?_, rfl⟩
      have hdisk : configure smallMachine.disk tun0Interface = .ok made := hconfigure
      have hroot : smallMachine.root = true := rfl
      have hdb : ∀ path, smallMachine.openDatabase path = some Database.empty := fun _ => rfl
      have hcreate : smallMachine.create (ascii "tun0") = true := rfl
      have hactivate : smallMachine.activate (ascii "tun0") = true := rfl
      simp [start, hroot, hdisk, hdb, hprocesses, hdevice, hcreate, hactivate, hiplist]

theorem started_runsAsTold_tun0 : ∃ started, start smallMachine tun0Interface = .ok started ∧
    RunsAsTold Service.plainWriters smallMachine tun0Interface started := by
  obtain ⟨started, hstart, -⟩ := start_tun0
  refine ⟨started, hstart,
    started_runsAsTold Service.plainWriters smallMachine tun0Interface started hstart ?_⟩
  intro path db hdb
  obtain rfl := Option.some.inj hdb
  exact System.sound_empty

end Ntmd
