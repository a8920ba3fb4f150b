/-
SqlMarkers.Proofs.Trail — what a successful reading did, token by token.

`Trail env s log parts edge r` says that the reading `r` is reached from the
reading `s` by the few things that readers do with tokens:

* `log` tells for every token on the way what became of it (`Fate`);
* `parts` are the table references, queries and kept texts that were taken in
  hand on the way and end up in the tree (`SqlMarkers.Proofs.Nested`);
* `edge` tells what is open at the end of the way.

The modules `SqlMarkers.Proofs.Trail.*` show that every reader leaves a trail,
up to `Setting.run`. Statements about successful readings are inductions
over trails; no such proof looks at a reader again.

## The edge

A name in front of a `.` is mostly noted as an owner, and then the reader goes
on with the `.`, or it ends and what it read is kept as text. A few readers
consume a name without a look at what follows, for example as an alias. If a
`.` follows such a name, the name is `loose`: no reader of the same query goes
on from there. It takes a reader that is in the middle of parentheses around
the query to consume the `.`.

`Reached` leaves the edge open. `Rested` excludes the middle of an operand,
`Running` a loose name, and `Settled` both.
-/
import SqlMarkers.Proofs.Nested
import SqlMarkers.Proofs.Steps
import SqlMarkers.Reader.Query

namespace SqlMarkers

/-! ## Logs -/

/-- What became of a token. -/
inductive Fate where
  /-- It was consumed, and no `.` follows if it is a name. -/
  | plain
  /-- A `?` that was counted. -/
  | counted
  /-- A name in front of a `.` that was noted under its decoded form. -/
  | owner (name : String)
  /-- A name in front of a `.` that was consumed like any other token. -/
  | loose
  /-- The schema of a table reference. -/
  | schema
  /-- The name of a table reference. -/
  | table (table : Table)
  /-- It is part of a passage. -/
  | passed
deriving DecidableEq, Repr

/-- A token and what became of it. -/
structure Entry where
  token : Token
  fate : Fate
deriving DecidableEq, Repr

theorem Entry.map_token_passed (ts : List Token) :
    List.map Entry.token (ts.map (⟨·, .passed⟩)) = ts := by
  rw [List.map_map]
  exact List.map_id ts

/-- What is open at the end of a trail. -/
inductive Edge where
  /-- Nothing is open. -/
  | settled
  /-- The reader is in the middle of an operand or behind a query. -/
  | midway
  /-- The last token is a name that no reader looked behind, and a `.` follows. -/
  | loose
deriving DecidableEq, Repr

/-- The edge behind a query that ended with this edge. -/
def Edge.outward : Edge → Edge
  | .loose => .loose
  | _ => .midway

/-- Neither the end of the input nor a token that has a rule of its own. -/
def Kind.isPlain : Kind → Bool
  | .endOfInput | .symbol .question | .symbol .dot => false
  | _ => true

/-! ## Kinds of tokens -/

theorem Token.isSymbol_iff {t : Token} {s : Symbol} : t.isSymbol s = true ↔ t.kind = .symbol s := by
  rw [Token.isSymbol, beq_iff_eq]

theorem Token.isKeyword_iff {t : Token} {k : Keyword} :
    t.isKeyword k = true ↔ t.kind = .keyword k := by
  rw [Token.isKeyword, beq_iff_eq]

theorem Token.isEnd_iff {t : Token} : t.isEnd = true ↔ t.kind = .endOfInput := by
  rw [Token.isEnd, beq_iff_eq]

theorem Token.isEnd_eq_false {t : Token} : t.isEnd = false ↔ t.kind ≠ .endOfInput := by
  rw [← Bool.not_eq_true, Token.isEnd_iff]

/-- A token is plain, the end of the input, a `?` or a `.`. -/
theorem Token.isPlain_of {t : Token} (hend : t.isEnd = false)
    (hmark : t.isSymbol .question = false) (hdot : t.isSymbol .dot = false) :
    t.kind.isPlain = true := by
  unfold Kind.isPlain
  split
  · rename_i hk
    simp [Token.isEnd, hk] at hend
  · rename_i hk
    simp [Token.isSymbol, hk] at hmark
  · rename_i hk
    simp [Token.isSymbol, hk] at hdot
  · rfl

theorem Token.isEnd_of_isPlain {t : Token} (h : t.kind.isPlain = true) : t.isEnd = false := by
  rw [Token.isEnd]
  cases hk : t.kind <;> simp_all [Kind.isPlain]

theorem Token.isDot_of_isPlain {t : Token} (h : t.kind.isPlain = true) :
    t.isSymbol .dot = false := by
  rw [Bool.eq_false_iff]
  intro hdot
  rw [Token.isSymbol_iff.1 hdot] at h
  cases h

theorem Token.isEnd_of_isSymbol {t : Token} {s : Symbol} (h : t.isSymbol s = true) :
    t.isEnd = false := by
  rw [Token.isEnd, Token.isSymbol_iff.1 h]
  rfl

theorem Token.isEnd_of_isKeyword {t : Token} {k : Keyword} (h : t.isKeyword k = true) :
    t.isEnd = false := by
  rw [Token.isEnd, Token.isKeyword_iff.1 h]
  rfl

theorem Token.isPlain_of_isAnyKeyword {t : Token} (h : t.isAnyKeyword = true) :
    t.kind.isPlain = true := by
  cases hk : t.kind <;> simp_all [Token.isAnyKeyword, Kind.isPlain]

theorem Token.isPlain_of_isName {t : Token} (h : t.isName = true) : t.kind.isPlain = true := by
  rw [Token.isName] at h
  cases hk : t.kind <;> simp_all [Kind.isPlain, Kind.isName]

theorem Token.isEnd_of_isName {t : Token} (h : t.isName = true) : t.isEnd = false :=
  Token.isEnd_of_isPlain (Token.isPlain_of_isName h)

/-! ## Readings on the way -/

namespace Reading

/-- The reading with the cursor elsewhere. -/
def moved (r : Reading) (c : Cursor) : Reading := { r with cursor := c }

/-- The reading in which a nested query starts. -/
def enter (r : Reading) : Reading := { r with draft := Draft.startingAt r.draft.parameters }

/-- The reading after a nested query that was read up to `r'`. -/
def leave (r r' : Reading) (q : Query) : Reading :=
  { r' with
    draft := { r.draft with
      parameters := q.scope.parameters
      owners := r.draft.owners ++ r'.draft.unresolved } }

/-- The reading with the current token noted as an owner named `name`. -/
def noted (r : Reading) (name : String) : Reading :=
  { r with
    draft := { r.draft with
      owners := r.draft.owners ++
        [⟨r.cursor.current.span.start, r.cursor.current.text, name⟩] } }

/-- The reading with one `?` more. -/
def counted (r : Reading) : Reading :=
  { r with draft := { r.draft with parameters := r.draft.parameters + 1 } }

/-- The reading with one passage more. -/
def passing (r : Reading) (kind : Passage.Kind) (span : Span) : Reading :=
  { r with passages := ⟨kind, span⟩ :: r.passages }

/-- The reading with a table declared if it is sharded. -/
def declaring (r : Reading) (env : Setting) (t : Table) (token : Token) : Reading :=
  if Reader.isSharded env t then { r with draft := r.draft.declare t token.text } else r

/-- The reading on another level. -/
def onLevel (r : Reading) (level : Nesting) : Reading := { r with nesting := level }

/-- The reading with a query attached to the scope. -/
def attaching (r : Reading) (q : Query) : Reading :=
  { r with draft := { r.draft with subqueries := r.draft.subqueries ++ [q] } }

variable (r r' : Reading) (env : Setting) (q : Query) (t : Table) (token : Token)

@[simp] theorem moved_cursor (c : Cursor) : (r.moved c).cursor = c := rfl

@[simp] theorem moved_draft (c : Cursor) : (r.moved c).draft = r.draft := rfl

@[simp] theorem moved_passages (c : Cursor) : (r.moved c).passages = r.passages := rfl

@[simp] theorem enter_passages : r.enter.passages = r.passages := rfl

@[simp] theorem leave_cursor : (r.leave r' q).cursor = r'.cursor := rfl

@[simp] theorem leave_passages : (r.leave r' q).passages = r'.passages := rfl

@[simp] theorem noted_passages (name : String) : (r.noted name).passages = r.passages := rfl

@[simp] theorem counted_passages : r.counted.passages = r.passages := rfl

@[simp] theorem passing_cursor (kind : Passage.Kind) (span : Span) :
    (r.passing kind span).cursor = r.cursor := rfl

@[simp] theorem passing_draft (kind : Passage.Kind) (span : Span) :
    (r.passing kind span).draft = r.draft := rfl

@[simp] theorem onLevel_cursor (level : Nesting) : (r.onLevel level).cursor = r.cursor := rfl

@[simp] theorem onLevel_draft (level : Nesting) : (r.onLevel level).draft = r.draft := rfl

@[simp] theorem onLevel_passages (level : Nesting) : (r.onLevel level).passages = r.passages := rfl

@[simp] theorem attaching_cursor : (r.attaching q).cursor = r.cursor := rfl

@[simp] theorem attaching_passages : (r.attaching q).passages = r.passages := rfl

@[simp] theorem declaring_cursor : (r.declaring env t token).cursor = r.cursor := by
  unfold declaring
  split <;> rfl

@[simp] theorem declaring_passages : (r.declaring env t token).passages = r.passages := by
  unfold declaring
  split <;> rfl

end Reading

/-- The tokens of a table's name: the name alone, or a schema and a `.` in front
of it. The entries are those in front of the name, `token` is the name, and
the cursor ends behind it. -/
inductive Named : Cursor → Option String → List Entry → Token → Cursor → Prop
  | alone {c c₁ : Cursor} :
      c.current.isName = true → Yields Cursor.next c () c₁ → Named c none [] c.current c₁
  | qualified {c c₁ c₂ c₃ : Cursor} {schema : String} :
      c.current.isName = true → Yields Cursor.next c () c₁ → c₁.current.isSymbol .dot = true →
      Yields Cursor.next c₁ () c₂ → c₂.current.isName = true → Yields Cursor.next c₂ () c₃ →
      c.current.name? = some schema →
      Named c (some schema) [⟨c.current, .schema⟩, ⟨c₁.current, .plain⟩] c₂.current c₃

/-! ## Trails -/

/-- `r` is reached from `s`; `log` tells what became of the tokens on the way,
`parts` are in hand, and `edge` is what is open. -/
inductive Trail (env : Setting) : Reading → List Entry → List Part → Edge → Reading → Prop
  | start (s : Reading) : Trail env s [] [] .settled s
  | pass {s r : Reading} {log : List Entry} {h : List Part} {e : Edge} {c : Cursor} :
      Trail env s log h e r → r.cursor.current.kind.isPlain = true →
      Yields Cursor.next r.cursor () c →
      (r.cursor.current.isName && c.current.isSymbol .dot) = false →
      Trail env s (log ++ [⟨r.cursor.current, .plain⟩]) h .settled (r.moved c)
  | slip {s r : Reading} {log : List Entry} {h : List Part} {e : Edge} {c : Cursor} :
      Trail env s log h e r → r.cursor.current.isName = true →
      Yields Cursor.next r.cursor () c → c.current.isSymbol .dot = true →
      Trail env s (log ++ [⟨r.cursor.current, .loose⟩]) h .loose (r.moved c)
  | dot {s r : Reading} {log : List Entry} {h : List Part} {e : Edge} {c : Cursor} :
      Trail env s log h e r → e ≠ .loose → r.cursor.current.isSymbol .dot = true →
      Yields Cursor.next r.cursor () c →
      Trail env s (log ++ [⟨r.cursor.current, .plain⟩]) h .settled (r.moved c)
  | count {s r : Reading} {log : List Entry} {h : List Part} {e : Edge} {c : Cursor} :
      Trail env s log h e r → r.cursor.current.isSymbol .question = true →
      Yields Cursor.next r.cursor () c →
      Trail env s (log ++ [⟨r.cursor.current, .counted⟩])
        (h ++ [.placeholder r.draft.parameters r.cursor.current.span]) .settled
        (r.counted.moved c)
  | owner {s r : Reading} {log : List Entry} {h : List Part} {e : Edge} {c : Cursor}
      {name : String} :
      Trail env s log h e r → r.cursor.current.isName = true →
      r.cursor.current.name? = some name → Yields Cursor.next r.cursor () c →
      c.current.isSymbol .dot = true →
      Trail env s (log ++ [⟨r.cursor.current, .owner name⟩]) h .midway ((r.noted name).moved c)
  | passage {s r : Reading} {log : List Entry} {h : List Part} {e : Edge} {c : Cursor}
      {ts : List Token} (kind : Passage.Kind) :
      Trail env s log h e r → r.cursor.current.kind.isPlain = true → ts ≠ [] →
      Steps r.cursor ts c → (kind ≠ .hint → ts = [r.cursor.current]) →
      Trail env s (log ++ ts.map (⟨·, .passed⟩)) h .settled
        ((r.moved c).passing kind ⟨r.cursor.current.span.start, c.lastEnd⟩)
  /-- The alias and the hints behind the name leave the draft alone. -/
  | table {s r r' : Reading} {log front log' : List Entry} {h : List Part} {e e' : Edge}
      {c : Cursor} {t : Table} {token : Token} :
      Trail env s log h e r → Named r.cursor t.schema front token c →
      Trail env (r.moved c) log' [] e' r' → r'.draft = r.draft → token.name? = some t.name →
      t.span = token.span →
      Trail env s (log ++ front ++ ⟨token, .table t⟩ :: log') (h ++ [.table t]) e'
        (r'.declaring env t token)
  | nested {s r r' : Reading} {log log' : List Entry} {h : List Part} {e e' : Edge} {c : Cursor}
      {q : Query} :
      Trail env s log h e r → r.cursor.current.isKeyword .SELECT = true →
      Yields Cursor.next r.cursor () c → Trail env (r.enter.moved c) log' q.parts e' r' →
      e' ≠ .midway → q.scope = r'.draft.finish →
      q.span = ⟨r.cursor.current.span.start, r'.cursor.lastEnd⟩ →
      Trail env s (log ++ ⟨r.cursor.current, .plain⟩ :: log') (h ++ [.query q]) e'.outward
        (r.leave r' q)
  | attach {s r : Reading} {log : List Entry} {h : List Part} {e : Edge} {q : Query} :
      Trail env s log (h ++ [.query q]) e r → r.cursor.lastEnd = q.span.stop →
      Trail env s log h .midway (r.attaching q)
  | keep {s r : Reading} {log : List Entry} {h : List Part} {e : Edge} (start : Nat) :
      Trail env s log h e r → e ≠ .loose →
      Trail env s log (h ++ [.verbatim ⟨start, r.cursor.lastEnd⟩]) .settled r
  /-- An expression that becomes part of a kept text. -/
  | drop {s r : Reading} {log : List Entry} {h : List Part} {e : Edge} (x : Expr) :
      Trail env s log (h ++ x.parts) e r →
      (x.isVerbatim = true → r.cursor.current.isSymbol .dot = false) → Trail env s log h e r
  | settle {s r : Reading} {log : List Entry} {h : List Part} {e : Edge} :
      Trail env s log h e r → r.cursor.current.isSymbol .dot = false →
      Trail env s log h .settled r
  | perm {s r : Reading} {log : List Entry} {h h' : List Part} {e : Edge} :
      Trail env s log h e r → h.Perm h' → Trail env s log h' e r
  /-- The reader goes to another level. -/
  | level {s r : Reading} {log : List Entry} {h : List Part} {e : Edge} (level : Nesting) :
      Trail env s log h e r → Trail env s log h e (r.onLevel level)

/-- Two trails, one behind the other. -/
theorem Trail.trans {env : Setting} {s r r' : Reading} {log log' : List Entry}
    {h h' : List Part} {e' : Edge} (t : Trail env s log h .settled r)
    (t' : Trail env r log' h' e' r') : Trail env s (log ++ log') (h ++ h') e' r' := by
  induction t' with
  | start => simpa using t
  | pass _ hplain hc hloose ih => simpa using (ih t).pass hplain hc hloose
  | slip _ hname hc hdot ih => simpa using (ih t).slip hname hc hdot
  | dot _ he hdot hc ih => simpa using (ih t).dot he hdot hc
  | count _ hmark hc ih => simpa using (ih t).count hmark hc
  | owner _ hname hdecoded hc hdot ih => simpa using (ih t).owner hname hdecoded hc hdot
  | passage kind _ hplain hne hsteps hone ih =>
      simpa using (ih t).passage kind hplain hne hsteps hone
  | table _ hnamed t₁ hdraft hdecoded hspan ih _ =>
      simpa using (ih t).table hnamed t₁ hdraft hdecoded hspan
  | nested _ hselect hc t₁ he hscope hspan ih _ =>
      simpa using (ih t).nested hselect hc t₁ he hscope hspan
  | attach _ hstop ih => exact (List.append_assoc .. ▸ ih t : Trail ..).attach hstop
  | keep start _ he ih => simpa using (ih t).keep start he
  | drop x _ hdot ih => exact (List.append_assoc .. ▸ ih t : Trail ..).drop x hdot
  | settle _ hdot ih => exact (ih t).settle hdot
  | perm _ hp ih => exact (ih t).perm (hp.append_left _)
  | level level _ ih => exact (ih t).level level

theorem Named.steps {c c' : Cursor} {schema : Option String} {front : List Entry} {token : Token}
    (h : Named c schema front token c') : Steps c (front.map Entry.token ++ [token]) c' := by
  cases h with
  | alone hname hc => exact .single (Token.isEnd_of_isName hname) hc
  | qualified hname hc₁ hdot hc₂ hname₂ hc₃ _ =>
      exact ((Steps.single (Token.isEnd_of_isName hname) hc₁).snoc
        (Token.isEnd_of_isSymbol hdot) hc₂).snoc (Token.isEnd_of_isName hname₂) hc₃

theorem Named.isName {c c' : Cursor} {schema : Option String} {front : List Entry} {token : Token}
    (h : Named c schema front token c') : c.current.isName = true := by
  cases h with
  | alone hname _ => exact hname
  | qualified hname _ _ _ _ _ _ => exact hname

/-- A trail moves the cursor over the tokens of its log. -/
theorem Trail.steps {env : Setting} {s r : Reading} {log : List Entry} {h : List Part} {e : Edge}
    (t : Trail env s log h e r) : Steps s.cursor (log.map Entry.token) r.cursor := by
  induction t with
  | start s => exact .refl _
  | pass _ hplain hc _ ih =>
      rw [List.map_append]
      exact ih.snoc (Token.isEnd_of_isPlain hplain) hc
  | slip _ hname hc _ ih | owner _ hname _ hc _ ih =>
      rw [List.map_append]
      exact ih.snoc (Token.isEnd_of_isName hname) hc
  | dot _ _ hmark hc ih | count _ hmark hc ih =>
      rw [List.map_append]
      exact ih.snoc (Token.isEnd_of_isSymbol hmark) hc
  | passage kind _ _ _ hsteps _ ih =>
      rw [List.map_append, Entry.map_token_passed]
      exact ih.trans hsteps
  | table _ hnamed _ _ _ _ ih ih' =>
      simpa using (ih.trans hnamed.steps).trans ih'
  | nested _ hselect hc _ _ _ _ ih ih' =>
      simpa using (ih.snoc (Token.isEnd_of_isKeyword hselect) hc).trans ih'
  | attach _ _ ih => exact ih
  | keep _ _ _ ih => exact ih
  | drop _ _ _ ih => exact ih
  | settle _ _ ih => exact ih
  | perm _ _ ih => exact ih
  | level _ _ ih => exact ih

/-- `r` is reached from `s` with `parts` in hand. -/
def Reached (env : Setting) (s : Reading) (parts : List Part) (r : Reading) : Prop :=
  ∃ log edge, Trail env s log parts edge r

/-- `r` is reached, and no operand is left in the middle. -/
def Rested (env : Setting) (s : Reading) (parts : List Part) (r : Reading) : Prop :=
  ∃ log edge, edge ≠ .midway ∧ Trail env s log parts edge r

/-- `r` is reached, and the last token is no loose name. -/
def Running (env : Setting) (s : Reading) (parts : List Part) (r : Reading) : Prop :=
  ∃ log edge, edge ≠ .loose ∧ Trail env s log parts edge r

/-- `r` is reached, and nothing is open. -/
def Settled (env : Setting) (s : Reading) (parts : List Part) (r : Reading) : Prop :=
  ∃ log, Trail env s log parts .settled r

/-- `r` is reached, and the expression before it ends there. -/
def Ended (env : Setting) (s : Reading) (parts : List Part) (r : Reading) : Prop :=
  Settled env s parts r ∧ r.cursor.current.isSymbol .dot = false

end SqlMarkers
