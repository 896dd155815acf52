import ComponentBinding.Log.Logged
import ComponentBinding.Toml.Reader

/-! Engine settings, kept as a TOML document of two sections. Sections, keys and whole documents may
be missing, and unknown ones are passed over. -/
namespace ComponentBinding

structure Config where
  version : Version := .v13
  nestedViews : Bool := true
  deriving DecidableEq, Repr

inductive ConfigError where
  | unreadable
  | malformed
  | invalidVersion (text : String)
  deriving DecidableEq, Repr

namespace Config

/-- The only setting of a section: under its key, or as the first item of a list. A date stands for a
section without settings. -/
def setting? (key : String) : Toml.Node → Except ConfigError (Option Toml.Node)
  | .table table | .inline table => .ok (table.get? key)
  | .array items => .ok items.head?
  | .tables tables => .ok (tables.head?.map .table)
  | .date => .ok none
  | _ => .error .malformed

def versionOf : Toml.Node → Except ConfigError Version
  | .string text =>
    match Version.read? text with
    | some version => .ok version
    | none => .error (.invalidVersion text)
  | _ => .error .malformed

def truthOf : Toml.Node → Except ConfigError Bool
  | .boolean value => .ok value
  | _ => .error .malformed

/-- The settings after one more entry of the document. -/
def addSection (config : Config) : String × Toml.Node → Except ConfigError Config
  | ("binding", node) => do
    match ← setting? "version" node with
    | none => return config
    | some node => return { config with version := ← versionOf node }
  | ("materialize", node) => do
    match ← setting? "nested_views" node with
    | none => return config
    | some node => return { config with nestedViews := ← truthOf node }
  | _ => .ok config

def read (text : String) : Except ConfigError Config :=
  match Toml.read? text with
  | none => .error .malformed
  | some document => document.entries.foldlM addSection {}

/-- The settings in a text, or nothing where there is no text to read. -/
def load (text? : Option String) : Logged (Except ConfigError Config) :=
  match text? with
  | none => pure (.error .unreadable)
  | some text =>
    match read text with
    | .error error => pure (.error error)
    | .ok config => do
      .report (.configLoaded config.version config.nestedViews)
      return .ok config

def text (config : Config) : String :=
  "[binding]\nversion = \"" ++ config.version.text ++ "\"\n\n[materialize]\nnested_views = " ++
    (if config.nestedViews then "true" else "false") ++ "\n"

end Config
end ComponentBinding
