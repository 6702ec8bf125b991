import TreeScript.Files
import TreeScript.Settings
import TreeScript.Text.Quoted
import TreeScript.Yaml.SyntaxError

/-!
# Errors in settings

What can be wrong with a settings file. A document can have several values of wrong kinds, and all
of them are reported together.
-/

namespace TreeScript

namespace Settings

inductive Target where
  | integer
  | truth
  | text
  | settings
deriving DecidableEq, Repr

def Target.name : Target → String
  | integer => "int"
  | truth => "bool"
  | text => "string"
  | settings => "config.Config"

/-- The start of a text in at most `budget` bytes. Every byte of a character that does not fit
counts as a replacement character. -/
def cut (budget : Nat) : List Char → List Char
  | [] => []
  | c :: rest =>
    if c.utf8Size ≤ budget then c :: cut (budget - c.utf8Size) rest
    else List.replicate budget '\uFFFD'

def excerpt (text : String) : String :=
  if 10 < text.utf8ByteSize then String.ofList (cut 7 text.toList) ++ "..." else text

inductive Complaint where
  | mismatch (line : Nat) (tag text : String) (target : Target)
  | duplicateKey (line : Nat) (key : String) (first : Nat)
  | repeatedField (line : Nat) (name : String)
deriving DecidableEq, Repr

/-- The complaint in words. The text of a value follows its tag directly if the tag says that there
should be none. -/
def Complaint.message : Complaint → String
  | .mismatch line tag text target =>
    "line " ++ toString line ++ ": cannot unmarshal " ++ tag ++
      (if tag == "!!seq" || tag == "!!map" then text else " `" ++ excerpt text ++ "`") ++
      " into " ++ target.name
  | .duplicateKey line key first =>
    "line " ++ toString line ++ ": mapping key " ++ Text.quoted key ++
      " already defined at line " ++ toString first
  | .repeatedField line name =>
    "line " ++ toString line ++ ": field " ++ name ++ " already set in type " ++
      Target.settings.name

inductive Collection where
  | sequence
  | mapping (textual : Bool)
deriving DecidableEq, Repr

def Collection.name : Collection → String
  | sequence => "[]interface \x7b\x7d"
  | mapping true => "map[string]interface \x7b\x7d"
  | mapping false => "map[interface \x7b\x7d]interface \x7b\x7d"

end Settings

inductive SettingsError where
  /-- Nobody knows where the search for settings would start. -/
  | unresolved (text : String)
  | unreadable (path : String) (e : FileError)
  | notDocument (path : String) (e : Yaml.SyntaxError)
  | unfit (path : String) (complaints : List Settings.Complaint)
  /-- A collection stands where keys have to be compared. -/
  | incomparableKey (key : Settings.Collection)
  | unknownColor (path color : String)
  | negativeDepth (path : String) (depth : Int)
deriving DecidableEq, Repr

def SettingsError.message : SettingsError → String
  | .unresolved text => "resolving directory: " ++ text
  | .unreadable path e => "reading config " ++ path ++ ": " ++ e.message path
  | .notDocument path e => "parsing " ++ path ++ ": yaml: " ++ e.message
  | .unfit path complaints =>
    "parsing " ++ path ++ ": yaml: unmarshal errors:\n  " ++
      String.intercalate "\n  " (complaints.map Settings.Complaint.message)
  | .incomparableKey key => "runtime error: hash of unhashable type " ++ key.name
  | .unknownColor path color =>
    path ++ ": color must be one of " ++ String.intercalate ", " Settings.colors ++ " (got " ++
      Text.quoted color ++ ")"
  | .negativeDepth path depth =>
    path ++ ": max_depth must not be negative (got " ++ toString depth ++ ")"

end TreeScript
