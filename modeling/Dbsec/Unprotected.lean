import Dbsec.Sql
import Dbsec.Params

/-! The sites the write path cannot protect (proxy/src/encrypt/unprotected.rs) and the
one decision taken at each: warn and go on, or refuse the statement with a message.
How sqlparser prints a name is a parameter. The wording of the log lines carries no
decision and is left out. -/
namespace Dbsec.Unprotected
open Sql Params

inductive OnUnprotected where
  | warn
  | reject
  deriving DecidableEq

inductive ParserError where
  | tokenizer
  | parser
  | recursionLimit
  deriving DecidableEq

def parserErrorKind : ParserError → String
  | .tokenizer => "tokenizer"
  | .parser => "parser"
  | .recursionLimit => "recursion limit"

inductive Site where
  | nonUtf8
  | unparseable (error : ParserError)
  | noColumnList (table : ObjectName)
  | insertFromSelect (table : ObjectName)
  | copy (table : ObjectName) (outward : Bool)
  | copyQuery (table : String)
  | unsupported (table : ObjectName) (shape : String)
  | ambiguousLiteral (column : String)
  | unsupportedValue (column shape : String)
  | computedColumn (column shape : String)
  | rowKeyMissing (table column shape : String)
  | rowKeyReassigned (table column : String)
  | predicate (column shape : String)
  | ambiguousColumn (column shape : String)
  | unindexedPredicate (column shape : String)
  | searchPathChanged
  | escapeStringsChanged
  | searchPath (table : ObjectName)
  deriving DecidableEq

/-- What the refusal says about the site: identifiers and shapes, never a value. -/
def Site.detail (display : ObjectName → String) : Site → String
  | .nonUtf8 => "the query is not valid UTF-8, so protected columns cannot be found in it"
  | .unparseable error =>
    s!"the SQL could not be parsed ({parserErrorKind error}), so protected columns cannot be " ++
      "found in it"
  | .noColumnList table =>
    s!"INSERT into protected table {display table} needs an explicit column list"
  | .insertFromSelect table =>
    s!"INSERT ... SELECT into protected table {display table} cannot be encrypted"
  | .copy table outward =>
    let direction := if outward then "from" else "into"
    s!"COPY {direction} protected table {display table} bypasses the proxy's encryption and " ++
      "masking"
  | .copyQuery table =>
    s!"COPY of a query reading protected table {table} returns its rows as CopyData, which " ++
      "cannot be decrypted or masked; run the query as an ordinary SELECT instead"
  | .unsupported table shape =>
    s!"{shape} writing protected table {display table} cannot be encrypted"
  | .ambiguousLiteral column =>
    s!"a value for protected column {column} contains a backslash and this session turned " ++
      "standard_conforming_strings off, so the proxy cannot read it the way the server will"
  | .unsupportedValue column shape =>
    s!"protected column {column} was assigned a {shape}, which cannot be encrypted"
  | .computedColumn column shape =>
    s!"protected column {column} was projected through a {shape}; the result carries no " ++
      "table identity, so it cannot be decrypted or masked and would be returned in its " ++
      "stored form; select the column directly instead"
  | .rowKeyMissing table column shape =>
    s!"{table} binds its encrypted values to the row key {column}, but this is a {shape}; " ++
      s!"the statement must supply {column} as a literal or a parameter"
  | .rowKeyReassigned table column =>
    s!"{table} binds its encrypted values to the row key {column}, and this statement " ++
      s!"assigns {column} itself, so the value would be sealed against a row it does not " ++
      s!"land in; change {column} in a statement that writes no protected column of {table}"
  | .predicate column shape =>
    s!"searchable column {column} was used in a {shape}, which cannot be matched against " ++
      "its blind index"
  | .ambiguousColumn column shape =>
    s!"column {column} in a {shape} matches a protected column in more than one relation in " ++
      "scope, so it cannot be resolved to one and the comparison would match no rows; " ++
      "qualify it with its table or alias"
  | .unindexedPredicate column shape =>
    s!"protected column {column} was used in a {shape}, but it has no equality index, so the " ++
      "comparison would match no rows; set searchable = true on this column to make equality " ++
      "searchable"
  | .searchPathChanged =>
    "changing search_path leaves unqualified names resolving to an unknown schema"
  | .escapeStringsChanged =>
    "turning standard_conforming_strings off changes what a backslash in a string literal " ++
      "means, so a value bound to a protected column can no longer be read the way the server " ++
      "would read it"
  | .searchPath table =>
    s!"{display table} is unqualified and this session changed search_path, so it cannot be " ++
      "resolved to a protected table"

def Site.message (display : ObjectName → String) (site : Site) : String :=
  s!"dbsec refused this statement: {site.detail display} (on_unprotected = \"reject\")"

/-- Why a rewrite stopped: the session ends, or this one statement is refused. -/
inductive Rejection where
  | fatal (error : SessionError)
  | refused (message : String)
  deriving DecidableEq

def decideSite (policy : OnUnprotected) (display : ObjectName → String) (site : Site) :
    Except Rejection Unit :=
  match policy with
  | .warn => .ok ()
  | .reject => .error (.refused (site.message display))

theorem decideSite_reject (display : ObjectName → String) (site : Site) :
    decideSite .reject display site ≠ .ok () := nofun

end Dbsec.Unprotected
