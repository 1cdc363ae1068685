import Dbsec.Text
import Dbsec.Sql

/-! The session settings a statement moves, read from its tokens:
proxy/src/encrypt/settings.rs. Of sqlparser's tokens the scan tells apart those below;
every other one is `other`. -/
namespace Dbsec.Settings
open Text

inductive Token where
  | word (value : List Char) (quoted : Bool)
  | singleQuoted (text : List Char)
  | number (text : List Char)
  | comma
  | eq
  | lParen
  | rParen
  | semiColon
  | whitespace
  | other
  deriving DecidableEq

inductive SettingMoved where
  | searchPath
  | escapeStrings
  deriving DecidableEq

def keyword : Token → Option (List Char)
  | .word value false => some value
  | _ => none

def isKeyword (token : Token) (spelled : String) : Bool :=
  (keyword token).any fun word => equalIgnoringCase word spelled.toList

def trimMatches (drops : Char → Bool) (text : List Char) : List Char :=
  trimEnd drops (text.dropWhile drops)

/-- The elements a setting is assigned, up to the end of the enclosing call. -/
def settingValues : List Token → Option (List (List Char))
  | [] => some []
  | .semiColon :: _ => some []
  | .rParen :: _ => some []
  | .comma :: rest => settingValues rest
  | .word value quoted :: rest => do
      let values ← settingValues rest
      return (if quoted then value else value.map asciiLower) :: values
  | .singleQuoted text :: rest => do
      let values ← settingValues rest
      return (text.splitOn ',').map (fun part => trimMatches (· = '"') (trim part)) ++ values
  | .number text :: rest => do
      let values ← settingValues rest
      return text :: values
  | _ => none

/-- Whether the value leaves `public` the schema of an unqualified name. -/
def isDefaultSearchPath : Option (List (List Char)) → Bool
  | none => false
  | some values =>
    values.all (fun name => name == "public".toList || name == "$user".toList) &&
      values.any (· == "public".toList)

def isOnValue (value : List Char) : Bool :=
  ["on", "true", "t", "yes", "y", "1"].any fun spelling => equalIgnoringCase value spelling.toList

def isOn : Option (List (List Char)) → Bool
  | some [value] => isOnValue value
  | _ => false

/-- Values that could not be read count as a move. -/
def movedBy (name : List Char) (values : Option (List (List Char))) : Option SettingMoved :=
  if equalIgnoringCase name "search_path".toList then
    if isDefaultSearchPath values then none else some .searchPath
  else if equalIgnoringCase name "standard_conforming_strings".toList then
    if isOn values then none else some .escapeStrings
  else none

/-- `SET [SESSION | LOCAL] name`, without the optional word. -/
def afterScope (tokens : List Token) : List Token :=
  match tokens with
  | first :: rest => if isKeyword first "session" || isKeyword first "local" then rest else tokens
  | [] => []

def setStatement (tokens : List Token) : Option SettingMoved :=
  match afterScope tokens with
  | [] => none
  | first :: rest => do
      let name ← keyword first
      if equalIgnoringCase name "schema".toList then
        movedBy "search_path".toList (settingValues rest)
      else match rest with
        | [] => none
        | second :: values =>
          if second = .eq || isKeyword second "to" then movedBy name (settingValues values)
          else none

/-- What follows the name `set_config`. A setting name that is not a literal could be
`search_path`. -/
def setConfigCall (tokens : List Token) : Option SettingMoved :=
  match tokens with
  | .lParen :: .singleQuoted setting :: .comma :: value :: _ =>
    movedBy setting (settingValues [value])
  | [.lParen, .singleQuoted _, .comma] => none
  | [.lParen, .singleQuoted _] => none
  | .lParen :: _ => some .searchPath
  | _ => none

def addSetting (moved : List SettingMoved) : Option SettingMoved → List SettingMoved
  | none => moved
  | some setting => if moved.contains setting then moved else moved ++ [setting]

def movedAt (initial : Bool) (token : Token) (rest : List Token) : Option SettingMoved :=
  -- `SET` also opens the assignment list of an UPDATE.
  if initial && isKeyword token "set" then setStatement rest
  else if isKeyword token "set_config" then setConfigCall rest
  else none

def movedFrom (initial : Bool) (moved : List SettingMoved) : List Token → List SettingMoved
  | [] => moved
  | token :: rest => movedFrom false (addSetting moved (movedAt initial token rest)) rest

def statementSettingsMoved (tokens : List Token) : List SettingMoved := movedFrom true [] tokens

/-- The settings each statement of one text moves; an empty run is no statement. -/
def settingsMoved (tokens : List Token) : List (List SettingMoved) :=
  (((tokens.filter (· ≠ .whitespace)).splitOn .semiColon).filter (!·.isEmpty)).map
    statementSettingsMoved

example : settingsMoved [.word "SET".toList false, .whitespace, .word "search_path".toList false,
    .eq, .word "tenant7".toList false, .semiColon] = [[.searchPath]] := by decide

end Dbsec.Settings
