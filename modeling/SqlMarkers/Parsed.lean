/-
SqlMarkers.Parsed — parsing a statement and replacing its markers.

`parse` gives the tree of a statement together with the markers of all its
parts. `Parsed.replaceMarkers` replaces the text of markers in the source; all
other text stays as it is.
-/
import SqlMarkers.Config
import SqlMarkers.Reader.Statement
import SqlMarkers.Tree.Walk

namespace SqlMarkers

/-- A statement that was parsed. -/
structure Parsed where
  source : List Char
  statement : Statement
  /-- The markers of the statement and of the queries in it, by start. -/
  markers : List Marker

/-- Reads a statement under a configuration and a catalogue. -/
def readStatement (config : Config) (catalogue : Catalogue) (source : List Char) :
    Except Fault Statement :=
  Setting.read
    { source, dialect := config.dialect, catalogue, limit := config.maxDepth }

/-- Parses one statement. -/
def parse (config : Config) (catalogue : Catalogue) (source : String) : Except Failure Parsed :=
  match readStatement config catalogue source.toList with
  | .ok s => .ok { source := source.toList, statement := s, markers := s.allMarkers }
  | .error f => .error (f.toFailure source.toList)

namespace Parsed

/-- The number of `?` in the statement. -/
def parameterCount (p : Parsed) : Nat := p.statement.parameterCount

/-- The logical tables of all markers, in order and each once. -/
def logicalTables (p : Parsed) : List String :=
  Ordered.distinct (· == ·) (Ordered.sort (fun a b => decide (a ≤ b)) (p.markers.map Marker.table))

/-- `text` with the marker's bytes replaced, if they spell its literal. -/
def substitute (marker : Marker) (replacement : String) (text : List Char) : List Char :=
  match Text.takeWidth? marker.span.start text, Text.slice? marker.span.start marker.span.stop text,
      Text.dropWidth? marker.span.stop text with
  | some before, some literal, some after =>
      if literal = marker.literal.toList then before ++ replacement.toList ++ after else text
  | _, _, _ => text

/-- The source with each marker replaced by what `f` gives for it; `f` may have
effects. Markers are replaced from the last to the first, so that the offsets
of those still to be replaced stay right. -/
def replaceMarkersM {m : Type → Type} [Monad m] (p : Parsed) (f : Marker → m (Option String)) :
    m (List Char) :=
  p.markers.foldrM (fun marker text => do
    match ← f marker with
    | some replacement => return substitute marker replacement text
    | none => return text) p.source

/-- The source with each marker replaced by what `f` gives for it. -/
def replaceMarkers (p : Parsed) (f : Marker → Option String) : List Char :=
  Id.run (p.replaceMarkersM fun marker => pure (f marker))

end Parsed

end SqlMarkers
