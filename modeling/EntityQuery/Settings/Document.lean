import EntityQuery.Settings.Basic
import EntityQuery.Toml.Reader
import EntityQuery.Width

/-!
# Settings documents

Settings are written in TOML. A record is a table of its fields by name, or an array of them in the
order of declaration; fields that are missing have their defaults. A table may have other entries,
if what they say denotes something; further items of an array are not looked at. Whole numbers must
fit the width of their field.
-/

namespace EntityQuery

/-! ## §1 Fields -/

namespace Toml

/-- The first items of a list, as many as asked for; those that are missing are `none`. -/
def firstItems : Nat → List Toml → List (Option Toml)
  | 0, _ => []
  | count + 1, [] => none :: firstItems count []
  | count + 1, item :: items => some item :: firstItems count items

/-- The fields of a record with the given names. A point in time is a record without fields. -/
def record? (names : List String) : Toml → Option (List (Option Toml))
  | .table _ entries =>
    if entries.all fun (name, value) => names.contains name || value.isSolid then
      some (names.map fun name => entries.lookup name)
    else none
  | .array items => some (firstItems names.length items)
  | .tables items => some (firstItems names.length (items.map (.table .header)))
  | .moment => some (firstItems names.length [])
  | _ => none

/-- The meaning of a field, or its default if the field is missing. -/
def orDefault {α : Type} (meaning? : Toml → Option α) (default : α) : Option Toml → Option α
  | some value => meaning? value
  | none => some default

def asText? : Toml → Option String
  | .text s => some s
  | _ => none

/-- A truth value. -/
def asBool? : Toml → Option Bool
  | .boolean b => some b
  | _ => none

/-- A number that fits some bits without a sign. -/
def asNat? (bits : Nat) : Toml → Option Nat
  | .integer n => if fitsUnsigned bits n then some n.toNat else none
  | _ => none

/-- A value that has no fields. -/
def isEmpty : Toml → Bool
  | .table _ [] => true
  | .array [] => true
  | _ => false

/-- A policy: its name, or a table that holds nothing but an empty value under that name. -/
def asPolicy? : Toml → Option ColumnPolicy
  | .text name => ColumnPolicy.ofName? name
  | .table _ [(name, value)] => if value.isEmpty then ColumnPolicy.ofName? name else none
  | _ => none

end Toml

/-! ## §2 Records -/

/-- Read how queries are compiled. -/
def QuerySettings.ofToml? (value : Toml) : Option QuerySettings := do
  let base : QuerySettings := {}
  match ← value.record? ["network_id", "default_limit", "max_limit", "only_public_expeditions",
      "column_resolution"] with
  | [network, defaultLimit, maxLimit, publicOnly, policy] =>
    return {
      network := ← Toml.orDefault (Toml.asNat? 32) base.network network
      defaultLimit := ←
        Toml.orDefault (fun v => (v.asNat? 64).map some) base.defaultLimit defaultLimit
      maxLimit := ← Toml.orDefault (Toml.asNat? 64) base.maxLimit maxLimit
      publicOnly := ← Toml.orDefault Toml.asBool? base.publicOnly publicOnly
      policy := ← Toml.orDefault Toml.asPolicy? base.policy policy }
  | _ => none

namespace Settings

/-- Read where the schema document lies. -/
def projectPathOf? (value : Toml) : Option (Option String) := do
  let base : Settings := {}
  match ← value.record? ["path"] with
  | [path] => Toml.orDefault (fun v => v.asText?.map some) base.projectPath path
  | _ => none

/-- Read how much is logged. -/
def logLevelOf? (value : Toml) : Option String := do
  let base : Settings := {}
  match ← value.record? ["level"] with
  | [level] => Toml.orDefault Toml.asText? base.logLevel level
  | _ => none

def ofToml? (value : Toml) : Option Settings := do
  let base : Settings := {}
  match ← value.record? ["query", "project", "logging"] with
  | [query, project, logging] =>
    return {
      query := ← Toml.orDefault QuerySettings.ofToml? base.query query
      projectPath := ← Toml.orDefault projectPathOf? base.projectPath project
      logLevel := ← Toml.orDefault logLevelOf? base.logLevel logging }
  | _ => none

def parse (document : String) : Except SettingsError Settings :=
  match (Toml.parse? document).bind fun entries => ofToml? (.table .header entries) with
  | some s => s.validate
  | none => .error .malformed

end Settings

end EntityQuery
