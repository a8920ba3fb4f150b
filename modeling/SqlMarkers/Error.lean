/-
SqlMarkers.Error — errors as they are reported.

An error names its kind, the byte offset where reading stopped, what went
wrong, and up to `Error.excerptLength` characters of the statement from that
offset on.
-/
import SqlMarkers.Fault
import SqlMarkers.Text

namespace SqlMarkers

/-- The two kinds of error. -/
inductive ErrorKind where
  | lexical | grammar
deriving DecidableEq, Repr, Inhabited

/-- The name of a kind in a message. -/
def ErrorKind.name : ErrorKind → String
  | .lexical => "lexical"
  | .grammar => "syntax"

/-- An error in a statement. -/
structure Error where
  kind : ErrorKind
  offset : Nat
  detail : String
  excerpt : String
deriving DecidableEq, Repr, Inhabited

namespace Error

/-- The number of characters of an excerpt. -/
def excerptLength : Nat := 24

/-- The error of a kind at an offset of `source`. An offset inside a character
shows that character, one past the end shows nothing. -/
def locate (kind : ErrorKind) (source : List Char) (offset : Nat) (detail : String) : Error :=
  { kind, offset, detail
    excerpt := String.ofList ((Text.tailFrom offset source).take excerptLength) }

/-- The whole message. -/
def message (e : Error) : String :=
  e.kind.name ++ " error at offset " ++ toString e.offset ++ ": " ++ e.detail ++
    " (near \x22" ++ e.excerpt ++ "\x22)"

/-- Whether `part` occurs in `text`. -/
def mentions (part : List Char) : List Char → Bool
  | [] => part.isEmpty
  | c :: cs => part.isPrefixOf (c :: cs) || mentions part cs

/-- A suggestion for mending the statement, judged by the wording of the error. -/
def suggestion? (e : Error) : Option String :=
  let detail := e.detail.toList
  if "unterminated".toList.isPrefixOf detail then
    some "Close the quoted literal, identifier or comment"
  else if mentions "out of range".toList detail then
    some "Bind the value as a parameter instead of an inline literal"
  else if mentions "nesting".toList detail then
    some "Flatten nested sub-queries or raise max_nesting_depth"
  else if "unsupported".toList.isPrefixOf detail then
    some "Rewrite the statement without the unsupported construct"
  else none

end Error

/-- How a reading can fail: with an error to report, or without one. It ends without one
on text that cannot be decoded because a cut falls inside a character. -/
inductive Failure where
  | error (error : Error)
  | undecodable
deriving DecidableEq, Repr, Inhabited

/-- The failure that a fault in `source` amounts to. A count out of range ends the reading
as text without decoded form does. A reading loop that made no progress is reported as
an error at the start of the statement. -/
def Fault.toFailure (source : List Char) : Fault → Failure
  | .lexical offset cause => .error (Error.locate .lexical source offset cause.detail)
  | .grammar offset cause => .error (Error.locate .grammar source offset cause.detail)
  | .undecodable | .overflow => .undecodable
  | .stalled => .error (Error.locate .grammar source 0 "no progress")

end SqlMarkers
