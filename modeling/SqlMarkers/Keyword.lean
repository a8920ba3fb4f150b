/-
SqlMarkers.Keyword — the words of SQL that the library knows.

Whether a word is a keyword at all depends on the dialect (see
`SqlMarkers.Dialect`); this module fixes what each keyword is. A keyword is
`isReserved` when it can stand neither for a name nor for an operand,
`startsOperand` when it begins an operand without being a name, and
`isNameLike`, hence usable as a name, when it is neither.
-/
namespace SqlMarkers

/-- A word with a meaning of its own. -/
inductive Keyword where
  | SELECT | INSERT | UPDATE | DELETE | CREATE | ALTER | DROP | TRUNCATE | TABLE | TEMPORARY
  | IF | EXISTS | NOT | NULL | IS | IN | BETWEEN | LIKE | ESCAPE | AND | OR | DIV | MOD | AS
  | DISTINCT | DISTINCTROW | ALL | FROM | WHERE | GROUP | ORDER | BY | HAVING | LIMIT | OFFSET
  | FETCH | NEXT | FIRST | LAST | ROW | ROWS | ONLY | ASC | DESC | NULLS | UNION | INTERSECT
  | EXCEPT | INTO | VALUES | VALUE | SET | FOR | WITH | JOIN | INNER | CROSS | LEFT | RIGHT
  | FULL | OUTER | NATURAL | ON | USING | STRAIGHT_JOIN | CASE | WHEN | THEN | ELSE | END
  | INTERVAL | DEFAULT | TRUE | FALSE | USER | KEY | INDEX | CONSTRAINT | DUAL | USE | FORCE
  | IGNORE | LOW_PRIORITY | HIGH_PRIORITY | DELAYED | QUICK | SQL_SMALL_RESULT | SQL_BIG_RESULT
  | SQL_BUFFER_RESULT | SQL_CACHE | SQL_NO_CACHE | SQL_CALC_FOUND_ROWS | DUPLICATE | LOCK
  | SHARE | MODE | ROLLUP | TOP | PERCENT | TIES | OPTION | NOLOCK
deriving DecidableEq, Repr, Inhabited

namespace Keyword

/-- The upper-case spelling. -/
def spelling : Keyword → String
  | .SELECT => "SELECT"
  | .INSERT => "INSERT"
  | .UPDATE => "UPDATE"
  | .DELETE => "DELETE"
  | .CREATE => "CREATE"
  | .ALTER => "ALTER"
  | .DROP => "DROP"
  | .TRUNCATE => "TRUNCATE"
  | .TABLE => "TABLE"
  | .TEMPORARY => "TEMPORARY"
  | .IF => "IF"
  | .EXISTS => "EXISTS"
  | .NOT => "NOT"
  | .NULL => "NULL"
  | .IS => "IS"
  | .IN => "IN"
  | .BETWEEN => "BETWEEN"
  | .LIKE => "LIKE"
  | .ESCAPE => "ESCAPE"
  | .AND => "AND"
  | .OR => "OR"
  | .DIV => "DIV"
  | .MOD => "MOD"
  | .AS => "AS"
  | .DISTINCT => "DISTINCT"
  | .DISTINCTROW => "DISTINCTROW"
  | .ALL => "ALL"
  | .FROM => "FROM"
  | .WHERE => "WHERE"
  | .GROUP => "GROUP"
  | .ORDER => "ORDER"
  | .BY => "BY"
  | .HAVING => "HAVING"
  | .LIMIT => "LIMIT"
  | .OFFSET => "OFFSET"
  | .FETCH => "FETCH"
  | .NEXT => "NEXT"
  | .FIRST => "FIRST"
  | .LAST => "LAST"
  | .ROW => "ROW"
  | .ROWS => "ROWS"
  | .ONLY => "ONLY"
  | .ASC => "ASC"
  | .DESC => "DESC"
  | .NULLS => "NULLS"
  | .UNION => "UNION"
  | .INTERSECT => "INTERSECT"
  | .EXCEPT => "EXCEPT"
  | .INTO => "INTO"
  | .VALUES => "VALUES"
  | .VALUE => "VALUE"
  | .SET => "SET"
  | .FOR => "FOR"
  | .WITH => "WITH"
  | .JOIN => "JOIN"
  | .INNER => "INNER"
  | .CROSS => "CROSS"
  | .LEFT => "LEFT"
  | .RIGHT => "RIGHT"
  | .FULL => "FULL"
  | .OUTER => "OUTER"
  | .NATURAL => "NATURAL"
  | .ON => "ON"
  | .USING => "USING"
  | .STRAIGHT_JOIN => "STRAIGHT_JOIN"
  | .CASE => "CASE"
  | .WHEN => "WHEN"
  | .THEN => "THEN"
  | .ELSE => "ELSE"
  | .END => "END"
  | .INTERVAL => "INTERVAL"
  | .DEFAULT => "DEFAULT"
  | .TRUE => "TRUE"
  | .FALSE => "FALSE"
  | .USER => "USER"
  | .KEY => "KEY"
  | .INDEX => "INDEX"
  | .CONSTRAINT => "CONSTRAINT"
  | .DUAL => "DUAL"
  | .USE => "USE"
  | .FORCE => "FORCE"
  | .IGNORE => "IGNORE"
  | .LOW_PRIORITY => "LOW_PRIORITY"
  | .HIGH_PRIORITY => "HIGH_PRIORITY"
  | .DELAYED => "DELAYED"
  | .QUICK => "QUICK"
  | .SQL_SMALL_RESULT => "SQL_SMALL_RESULT"
  | .SQL_BIG_RESULT => "SQL_BIG_RESULT"
  | .SQL_BUFFER_RESULT => "SQL_BUFFER_RESULT"
  | .SQL_CACHE => "SQL_CACHE"
  | .SQL_NO_CACHE => "SQL_NO_CACHE"
  | .SQL_CALC_FOUND_ROWS => "SQL_CALC_FOUND_ROWS"
  | .DUPLICATE => "DUPLICATE"
  | .LOCK => "LOCK"
  | .SHARE => "SHARE"
  | .MODE => "MODE"
  | .ROLLUP => "ROLLUP"
  | .TOP => "TOP"
  | .PERCENT => "PERCENT"
  | .TIES => "TIES"
  | .OPTION => "OPTION"
  | .NOLOCK => "NOLOCK"

/-- Structural words that stand neither for a name nor for an operand. -/
def isReserved : Keyword → Bool
  | .SELECT | .INSERT | .UPDATE | .DELETE | .CREATE | .ALTER | .DROP | .TRUNCATE | .TABLE | .IS
  | .IN | .BETWEEN | .LIKE | .ESCAPE | .AND | .OR | .AS | .DISTINCT | .DISTINCTROW | .ALL
  | .FROM | .WHERE | .GROUP | .ORDER | .BY | .HAVING | .LIMIT | .OFFSET | .FETCH | .ASC | .DESC
  | .UNION | .INTERSECT | .EXCEPT | .INTO | .VALUES | .SET | .FOR | .WITH | .JOIN | .INNER
  | .CROSS | .LEFT | .RIGHT | .FULL | .OUTER | .NATURAL | .ON | .USING | .STRAIGHT_JOIN | .WHEN
  | .THEN | .ELSE | .END | .HIGH_PRIORITY | .SQL_SMALL_RESULT | .SQL_BIG_RESULT
  | .SQL_BUFFER_RESULT | .SQL_CACHE | .SQL_NO_CACHE | .SQL_CALC_FOUND_ROWS | .LOCK | .TOP
  | .OPTION => true
  | _ => false

/-- Words that begin an operand without being a name. -/
def startsOperand : Keyword → Bool
  | .NOT | .EXISTS | .CASE | .INTERVAL | .NULL | .TRUE | .FALSE | .DEFAULT => true
  | _ => false

/-- Words that may name a table, a column or an alias. -/
def isNameLike (k : Keyword) : Bool := !k.isReserved && !k.startsOperand

/-- The keywords every dialect has. -/
def common : List Keyword :=
  [.SELECT, .INSERT, .UPDATE, .DELETE, .CREATE, .ALTER, .DROP, .TRUNCATE, .TABLE, .TEMPORARY,
   .IF, .EXISTS, .NOT, .NULL, .IS, .IN, .BETWEEN, .LIKE, .ESCAPE, .AND, .OR, .AS, .DISTINCT,
   .ALL, .FROM, .WHERE, .GROUP, .ORDER, .BY, .HAVING, .LIMIT, .OFFSET, .FETCH, .NEXT, .FIRST,
   .LAST, .ROW, .ROWS, .ONLY, .ASC, .DESC, .NULLS, .UNION, .INTERSECT, .EXCEPT, .INTO, .VALUES,
   .SET, .FOR, .WITH, .JOIN, .INNER, .CROSS, .LEFT, .RIGHT, .FULL, .OUTER, .NATURAL, .ON,
   .USING, .CASE, .WHEN, .THEN, .ELSE, .END, .INTERVAL, .DEFAULT, .TRUE, .FALSE, .USER, .KEY,
   .INDEX, .CONSTRAINT]

/-- The further keywords of MySQL. -/
def mysqlOnly : List Keyword :=
  [.DISTINCTROW, .VALUE, .DIV, .MOD, .STRAIGHT_JOIN, .DUAL, .USE, .FORCE, .IGNORE,
   .LOW_PRIORITY, .HIGH_PRIORITY, .DELAYED, .QUICK, .SQL_SMALL_RESULT, .SQL_BIG_RESULT,
   .SQL_BUFFER_RESULT, .SQL_CACHE, .SQL_NO_CACHE, .SQL_CALC_FOUND_ROWS, .DUPLICATE, .LOCK,
   .SHARE, .MODE, .ROLLUP]

/-- The further keywords of SQL Server. -/
def sqlserverOnly : List Keyword :=
  [.TOP, .PERCENT, .TIES, .OPTION, .NOLOCK]

/-- The first keyword of `vocabulary` that `word` spells in any case. -/
def find? (vocabulary : List Keyword) (word : List Char) : Option Keyword :=
  let upper := word.map Char.toUpper
  vocabulary.find? fun k => k.spelling.toList == upper

end Keyword

end SqlMarkers
