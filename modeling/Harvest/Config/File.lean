import Harvest.Config.Settings
import Harvest.Number.Binary
import Harvest.Toml.Document
import Harvest.Toml.Printer

/-!
# The settings file

The settings are kept in a TOML file with one table for every section. A file that cannot be read is
set aside, and one with the defaults takes its place.

## Main definitions

* `Settings.ofToml?` — the settings of a document
* `Settings.toToml?` — the document for some settings
* `SettingsFile` — the file and what was set aside, with `SettingsFile.load` and
  `SettingsFile.save?`

## Main results

* `SettingsFile.load_of_readable` — a file that can be read is left as it is
-/

namespace Harvest

namespace SettingValue

/-- The setting that a TOML value stands for. -/
def ofToml? : Toml.Value → Option SettingValue
  | .string s => some (.text s)
  | .integer n => if 0 ≤ n then some (.number n.toNat) else none
  | .boolean b => some (.flag b)
  | _ => none

/-- The TOML text of a setting, if it has one. Numbers have to fit 64 bits with a sign. -/
def toToml? : SettingValue → Option String
  | text s => some (Toml.quote s)
  | number n => if Bits.holds 63 n then some (toString n) else none
  | flag b => some (if b then "true" else "false")
  | absent => none

end SettingValue

namespace Settings

/-- The settings with the values of some fields; a value may be missing if the setting may. -/
def setAll? (value? : Nat → SettingField → Option Toml.Value) :
    Nat → List SettingField → Settings → Option Settings
  | _, [], s => some s
  | i, f :: fs, s =>
    match value? i f with
    | some v => do setAll? value? (i + 1) fs (← f.set? (← SettingValue.ofToml? v) s)
    | none => do
      guard f.isOptional
      setAll? value? (i + 1) fs (← f.set? .absent s)

/-- The settings with the values of a section, which is a table, or an array in the order of the
fields. -/
def setSection? (fields : List SettingField) (v : Toml.Value) (s : Settings) : Option Settings :=
  match v with
  | .table members => setAll? (fun _ f => members.lookup f.name) 0 fields s
  | .array items => setAll? (fun i _ => items[i]?) 0 fields s
  | _ => none

/-- The settings of a document, which has to contain all sections. -/
def ofToml? (text : String) : Option Settings := do
  let v ← Toml.parse? text
  sections.foldlM (fun s (name, fields) => do setSection? fields (← v.field? name) s) {}

/-- The line for a setting; nothing if the setting is missing. -/
def line? (s : Settings) (f : SettingField) : Option String :=
  match f.get s with
  | .absent => some ""
  | v => v.toToml?.map (Toml.entry f.name)

/-- The document for some settings, if every number has its place in one. -/
def toToml? (s : Settings) : Option String := do
  let blocks ← sections.mapM fun (name, fields) => do
    return Toml.block name (← fields.mapM s.line?)
  return "\n".intercalate blocks

end Settings

/-- The settings file. -/
structure SettingsFile where
  /-- The text of the file, if there is one. -/
  text : Option String := none
  /-- The text that was set aside last. -/
  backup : Option String := none
  deriving DecidableEq, Repr

namespace SettingsFile

/-- The file with the given settings. -/
def save? (f : SettingsFile) (s : Settings) : Option SettingsFile :=
  s.toToml?.map fun t => { f with text := some t }

/-- The file with the defaults. -/
def reset (f : SettingsFile) : SettingsFile := (f.save? {}).getD f

/-- The settings in a file, and the file afterwards. -/
def load (f : SettingsFile) : Settings × SettingsFile :=
  match f.text with
  | none => ({}, f.reset)
  | some t =>
    match Settings.ofToml? t with
    | some s => (s, f)
    | none => ({}, { f with backup := some t }.reset)

/-- A file that can be read is left as it is. -/
theorem load_of_readable {f : SettingsFile} {t : String} {s : Settings} (ht : f.text = some t)
    (hs : Settings.ofToml? t = some s) : f.load = (s, f) := by
  simp [load, ht, hs]

end SettingsFile

end Harvest
