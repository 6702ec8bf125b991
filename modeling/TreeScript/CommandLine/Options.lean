import TreeScript.Text.Quoted

/-!
# Options

Options start with one or two dashes and come before the paths. A value stands behind an equals
sign; where an option needs one, it may also be the next argument. The paths begin at the first
argument that is no option, or behind two dashes that stand alone.
-/

namespace TreeScript.CommandLine

/-- The options of a run. The path of the settings is empty if they are to be searched for. -/
structure Options where
  settingsPath : String := ""
  verbose : Bool := false
deriving DecidableEq, Repr

inductive UsageError where
  | badSyntax (argument : String)
  | unknown (name : String)
  | missingValue (name : String)
  | badTruth (value name : String)
deriving DecidableEq, Repr

def UsageError.message : UsageError → String
  | .badSyntax argument => "bad flag syntax: " ++ argument
  | .unknown name => "flag provided but not defined: -" ++ name
  | .missingValue name => "flag needs an argument: -" ++ name
  | .badTruth value name =>
    "invalid boolean value " ++ Text.quoted value ++ " for -" ++ name ++ ": parse error"

inductive Argument where
  /-- No option. -/
  | path
  /-- The end of the options. -/
  | separator
  /-- An option without a name. -/
  | malformed
  | option (name : String) (value : Option String)
deriving DecidableEq, Repr

def Argument.ofOption : List Char → Argument
  | [] => .malformed
  | c :: rest =>
    if c == '-' || c == '=' then .malformed
    else
      let name := rest.takeWhile (· != '=')
      match rest.drop name.length with
      | [] => .option (String.ofList (c :: name)) none
      | _ :: value => .option (String.ofList (c :: name)) (some (String.ofList value))

def Argument.ofText (s : String) : Argument :=
  match s.toList with
  | ['-'] => .path
  | ['-', '-'] => .separator
  | '-' :: '-' :: rest => .ofOption rest
  | '-' :: rest => .ofOption rest
  | _ => .path

def truth? (s : String) : Option Bool :=
  if ["1", "t", "T", "true", "TRUE", "True"].contains s then some true
  else if ["0", "f", "F", "false", "FALSE", "False"].contains s then some false
  else none

inductive Request where
  | help
  | refused (e : UsageError)
  | run (options : Options) (paths : List String)
deriving DecidableEq, Repr

/-- Reads the arguments on top of the options that came before; a later option wins. -/
def Request.parse (o : Options) : List String → Request
  | [] => .run o []
  | arg :: rest =>
    match Argument.ofText arg with
    | .path => .run o (arg :: rest)
    | .separator => .run o rest
    | .malformed => .refused (.badSyntax arg)
    | .option name value =>
      if name == "config" then
        match value, rest with
        | some path, rest => parse { o with settingsPath := path } rest
        | none, path :: rest => parse { o with settingsPath := path } rest
        | none, [] => .refused (.missingValue name)
      else if name == "v" then
        match truth? (value.getD "true") with
        | some verbose => parse { o with verbose } rest
        | none => .refused (.badTruth (value.getD "true") name)
      else if name == "help" || name == "h" then .help
      else .refused (.unknown name)

end TreeScript.CommandLine
