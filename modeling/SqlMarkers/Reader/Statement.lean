/-
SqlMarkers.Reader.Statement — definitions of tables, and statements of any
kind.

A statement may be followed by one `;`, and by nothing else.
-/
import SqlMarkers.Error
import SqlMarkers.Reader.Change
import SqlMarkers.Reader.Query

namespace SqlMarkers

namespace Reader

/-! ## Definitions -/

/-- Consumes `TABLE`; anything else that could be defined is not supported. -/
def definitionTarget (verb : Keyword) : Reader Unit := do
  if ← skipKeyword .TABLE then return
  let t ← current
  if t.isEnd then failExpected "TABLE"
  else failHere (.unsupported (verb.spelling ++ " " ++ Text.raised t.text))

/-- The words of a definition up to its first table. -/
def definitionHead : Reader DefinitionKind := do
  match (← current).kind with
  | .keyword .CREATE =>
      next
      let _ ← skipKeyword .TEMPORARY
      definitionTarget .CREATE
      if ← skipKeyword .IF then
        let _ ← acceptKeyword .NOT
        let _ ← acceptKeyword .EXISTS
      return .createTable
  | .keyword .ALTER =>
      next
      let _ ← skipKeyword .IGNORE
      definitionTarget .ALTER
      return .alterTable
  | .keyword .DROP =>
      next
      let _ ← skipKeyword .TEMPORARY
      definitionTarget .DROP
      if ← skipKeyword .IF then
        let _ ← acceptKeyword .EXISTS
      return .dropTable
  | _ =>
      next
      let _ ← skipKeyword .TABLE
      return .truncateTable

/-- A table of a definition. -/
def definedTable (env : Setting) : Reader Table := do
  let (t, token) ← tableName
  declare env t token
  return t

/-- Reads on to a `;` or the end of the input. -/
def remainder (inner : Inner) : Reader Unit :=
  repeating (fun () => do
    let t ← current
    if t.isEnd || t.isSymbol .semicolon then return .stop ()
    else if t.isSymbol .leftParen then
      let _ ← parentheses inner
      return .again ()
    else
      consume
      return .again ()) ()

/-- A statement that defines tables. Only `DROP` takes several of them. -/
def definition (env : Setting) (inner : Inner) : Reader Definition := do
  let start ← here
  let kind ← definitionHead
  let tables ←
    if kind = .dropTable then commaSeparated (definedTable env)
    else pure [← definedTable env]
  remainder inner
  let stop ← lastEnd
  return { kind, tables, text := sourceText env start stop, scope := ← finishedScope
           span := ⟨start, stop⟩ }

/-! ## Statements -/

/-- A statement of any kind. -/
def statement (env : Setting) (inner : Inner) : Reader Statement := do
  match (← current).kind with
  | .keyword .SELECT => return .select (← query env inner)
  | .keyword .INSERT => return .insert (← insert env inner)
  | .keyword .UPDATE => return .update (← update env inner)
  | .keyword .DELETE => return .delete (← delete env inner)
  | .keyword .CREATE => return .define (← definition env inner)
  | .keyword .ALTER => return .define (← definition env inner)
  | .keyword .DROP => return .define (← definition env inner)
  | .keyword .TRUNCATE => return .define (← definition env inner)
  | _ => failExpected "SELECT, INSERT, UPDATE, DELETE or DDL statement"

/-- A statement and the end of the input, with an optional `;` between them. -/
def wholeStatement (env : Setting) (inner : Inner) : Reader Statement := do
  let s ← statement env inner
  let _ ← skipSymbol .semicolon
  if (← current).isEnd then return s else failExpected "end of statement"

end Reader

/-- Reads a statement and gives the reading it ended in as well. -/
def Setting.run (env : Setting) : Except Fault (Statement × Reading) :=
  match Cursor.ofText env.dialect env.source with
  | .error f => .error f
  | .ok cursor =>
      match Reader.wholeStatement env (Inner.upTo env env.limit) (Reading.start cursor) with
      | .ok s r => .ok (s, r)
      | .error f _ => .error f

/-- Reads a statement, or tells what stopped the reading. -/
def Setting.read (env : Setting) : Except Fault Statement := env.run.map Prod.fst

end SqlMarkers
