/-
SqlMarkers.Dialect — the three dialects and what each of them can write.

The dialects differ in their keywords and in a few lexical forms, collected
in `Features`. `Dialect.keyword?` decides whether a word is a keyword.
-/
import SqlMarkers.Keyword

namespace SqlMarkers

/-- A dialect of SQL. -/
inductive Dialect where
  | standard | mysql | sqlserver
deriving DecidableEq, Repr, Inhabited

/-- The lexical forms a dialect may have beyond the common ones. -/
structure Features where
  /-- Variables, written `@name` or `@@name`. -/
  sqlVariables : Bool
  /-- National strings, written `N'text'`. -/
  nationalStrings : Bool
  /-- Hints, written `/*! text */`. -/
  hints : Bool
  /-- A backslash in a string escapes the next character. -/
  backslashEscapes : Bool
  /-- Names in brackets, written `[name]`. -/
  bracketNames : Bool
  /-- Line comments that start with `#`. -/
  hashComments : Bool
deriving DecidableEq, Repr

namespace Dialect

/-- The name of a dialect in a configuration. -/
def name : Dialect → String
  | .standard => "standard"
  | .mysql => "mysql"
  | .sqlserver => "sqlserver"

/-- Every dialect. -/
def all : List Dialect := [.standard, .mysql, .sqlserver]

/-- The dialect with exactly this name. -/
def ofName? (s : String) : Option Dialect := all.find? fun d => d.name == s

/-- The lexical forms of a dialect. -/
def features : Dialect → Features
  | .standard =>
      { sqlVariables := false, nationalStrings := false, hints := false,
        backslashEscapes := false, bracketNames := false, hashComments := false }
  | .mysql =>
      { sqlVariables := true, nationalStrings := true, hints := true,
        backslashEscapes := true, bracketNames := false, hashComments := true }
  | .sqlserver =>
      { sqlVariables := true, nationalStrings := true, hints := false,
        backslashEscapes := false, bracketNames := true, hashComments := false }

/-- The keywords of a dialect. -/
def vocabulary : Dialect → List Keyword
  | .standard => Keyword.common
  | .mysql => Keyword.common ++ Keyword.mysqlOnly
  | .sqlserver => Keyword.common ++ Keyword.sqlserverOnly

/-- The keyword that `word` is in this dialect, in any case of its letters. -/
def keyword? (d : Dialect) (word : List Char) : Option Keyword :=
  Keyword.find? d.vocabulary word

end Dialect

end SqlMarkers
