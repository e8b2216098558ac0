import TieredStore.Backing.MemoryStore
import TieredStore.Backing.Settings

/-!
# Openers of backing stores

An opener has one builder for each kind of store that it knows, and opens the kind that its
settings name. A store in memory can always be opened; other kinds are registered.

Builders act on a world of type `ω`, which stands for whatever lies outside the program: the disk,
or a script of outcomes.
-/

namespace TieredStore

/-- What opens a store as requested, in some world. -/
abbrev StoreBuilder (ω σ : Type) := OpenRequest → ω → Except Failure σ × ω

/-- A choice of builders and the settings that pick one. -/
structure StoreOpener (ω σ : Type) where
  settings : StoreSettings
  /-- The builder of each kind known. -/
  builders : List (StoreKind × StoreBuilder ω σ)

namespace StoreOpener

variable {ω σ : Type}

/-- An opener that knows the store in memory, taken into the type of stores by `ofMemory`. -/
def standard (ofMemory : MemoryStore → σ) (settings : StoreSettings) : StoreOpener ω σ :=
  ⟨settings, [(.memory, fun _ world => (.ok (ofMemory .empty), world))]⟩

/-- The opener with a builder for a kind, in the place of any other. -/
def register (opener : StoreOpener ω σ) (kind : StoreKind) (builder : StoreBuilder ω σ) :
    StoreOpener ω σ :=
  { opener with builders := (kind, builder) :: opener.builders.filter (·.1 ≠ kind) }

/-- Opens a store at a path. A kind without a builder is not supported, and nothing in the world
is touched. -/
def create (opener : StoreOpener ω σ) (path : String) (world : ω) : Except Failure σ × ω :=
  match opener.builders.lookup opener.settings.kind with
  | none => (.error (.unknownStoreKind opener.settings.kind.name), world)
  | some builder => builder (opener.settings.request path) world

/-- The opener in one line: its settings and the kinds it knows. -/
def describe (opener : StoreOpener ω σ) : String :=
  "DbPersisterFactory \x7b config: " ++ opener.settings.describe ++
    ", builders: [" ++ ", ".intercalate (opener.builders.map (·.1.label)) ++ "] \x7d"

end StoreOpener

end TieredStore
