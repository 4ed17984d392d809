import Vassal.Groups.Table
import Vassal.Project.Basic
import Vassal.Text.Utf8
import Vassal.Toml.Document

-- Projects from TOML.

namespace Vassal

open Toml

namespace Preset

def ofName? : String → Option Preset
  | "plain" => some plain
  | "nice" => some nice
  | "python" => some python
  | _ => none

-- A preset by its name, or as the only key of a table, over nothing.
def ofValue? : Decoder Preset
  | .string s => ofName? s
  | .table [(s, .table [])] | .table [(s, .array [])] => ofName? s
  | _ => none

end Preset

namespace Embedded

def ofValue? : Decoder Embedded
  | .string "basic" => some basic
  | v => (v.listOf? Value.string?).map listed

end Embedded

namespace NiceParams

def ofValue? : Decoder NiceParams := fun v => do
  let t ← v.params? ["name", "touch_reload", "workers", "threads"]
  return {
    name := ← t.field? "name" Value.string?
    touchReload := ← t.field? "touch_reload" (Value.listOf? Value.string?)
    workers := ← t.field? "workers" (Value.bounded? 32)
    threads := ← t.field? "threads" (Value.bounded? 32) }

end NiceParams

namespace PluginsParams

def ofValue? : Decoder PluginsParams := fun v => do
  let t ← v.params? ["plugins", "search_dirs", "autoload", "required"]
  return {
    plugins := ← t.fieldD? "plugins" (Value.listOf? Value.string?) []
    searchDirs := ← t.fieldD? "search_dirs" (Value.listOf? Value.string?) []
    autoload := ← t.field? "autoload" Value.boolean?
    required := ← t.fieldD? "required" Value.boolean? false }

end PluginsParams

namespace SectionSpec

-- The keys that a section has a meaning for.
def knownKeys : List String :=
  ["name", "preset", "derive_from", "strict_config", "embedded_plugins", "nice", "wsgi_module",
   "plugins", "env", "include", "fallback", "print_variables"]

def envOfValue? : Decoder (List (String × String)) := fun v => do
  return Ascending.ofList (← (← v.entries?).mapM fun (key, v) => v.string?.map (key, ·))

def ofValue? : Decoder SectionSpec := fun v => do
  let t ← v.entries?
  return {
    name := ← t.field? "name" Value.string?
    preset := ← t.fieldD? "preset" Preset.ofValue? .plain
    deriveFrom := ← t.field? "derive_from" Value.string?
    strictConfig := ← t.field? "strict_config" Value.boolean?
    embedded := ← t.fieldD? "embedded_plugins" Embedded.ofValue? .unstated
    nice := ← t.fieldD? "nice" NiceParams.ofValue? {}
    wsgiModule := ← t.field? "wsgi_module" Value.string?
    plugins := ← t.field? "plugins" PluginsParams.ofValue?
    env := ← t.fieldD? "env" envOfValue? []
    includes := ← t.fieldD? "include" (Value.listOf? Value.string?) []
    fallback := ← t.field? "fallback" Value.string?
    printVariables := ← t.fieldD? "print_variables" Value.boolean? false
    groups := t.filter fun (key, _) => !knownKeys.contains key }

end SectionSpec

namespace Project

def ofTable? (t : Table) : Option Project := do
  return {
    autoinclude := ← t.fieldD? "autoinclude_sections" Value.boolean? false
    banner := ← t.fieldD? "banner" Value.boolean? true
    sections := ← t.fieldD? "sections" (Value.listOf? SectionSpec.ofValue?) [] }

def ofToml (text : String) : Except Error Project :=
  match Toml.parse? text >>= ofTable? with
  | some project => .ok project
  | none => .error .malformedProject

-- The project in a file.
def ofBytes (bytes : ByteArray) : Except Error Project :=
  match Text.Utf8.decode? bytes with
  | some text => ofToml text
  | none => .error (.file .notText)

end Project

end Vassal
