import TieredStore.Failure
import TieredStore.Text.Quoted

/-!
# Settings of a backing store

The kind of a store, where it lies and how it writes, as settings give them; and what is passed on
to whatever opens a store of that kind.
-/

namespace TieredStore

/-- The kind of a backing store. -/
inductive StoreKind
  /-- On disk, with writes in batches side by side. -/
  | batched
  /-- On disk, one access at a time. -/
  | serial
  | memory
  deriving DecidableEq, Repr

namespace StoreKind

/-- The kind's name in settings. -/
def name : StoreKind → String
  | batched => "LvlDB"
  | serial => "LvlDBSerial"
  | memory => "MemoryDB"

/-- The kind's name in descriptions. -/
def label : StoreKind → String
  | batched => "LvlDb"
  | serial => "LvlDbSerial"
  | memory => "MemoryDb"

/-- All kinds. -/
def all : List StoreKind := [batched, serial, memory]

/-- The kind of a name, which is taken to the letter. -/
def ofName (name : String) : Except Failure StoreKind :=
  match all.find? fun kind => kind.name == name with
  | some kind => .ok kind
  | none => .error (.unknownStoreKind name)

instance : Inhabited StoreKind := ⟨memory⟩

end StoreKind

/-- What a backing store is opened from. -/
structure StoreSettings where
  path : String := ""
  kind : StoreKind := default
  /-- Seconds between two batches of writes. -/
  batchDelay : Nat := 2
  batchSize : Nat := 100
  openFiles : Nat := 10
  deriving DecidableEq, Repr

/-- The settings in one line, the path in quotes. -/
def StoreSettings.describe (s : StoreSettings) : String :=
  "DbConfig \x7b file_path: " ++ Text.quote s.path ++
    ", db_type: " ++ s.kind.label ++
    ", batch_delay_seconds: " ++ toString s.batchDelay ++
    ", max_batch_size: " ++ toString s.batchSize ++
    ", max_open_files: " ++ toString s.openFiles ++ " \x7d"

/-- What a store is asked to open: the settings, at a path that need not be theirs. -/
structure OpenRequest where
  kind : StoreKind
  path : String
  /-- Seconds between two batches of writes. -/
  batchDelay : Nat
  batchSize : Nat
  openFiles : Nat
  deriving DecidableEq, Repr

/-- The request for a store with these settings at a path. -/
def StoreSettings.request (s : StoreSettings) (path : String) : OpenRequest :=
  ⟨s.kind, path, s.batchDelay, s.batchSize, s.openFiles⟩

end TieredStore
