/-
SqlMarkers.Proofs.Replacement — replacing markers from right to left gives the
same text as splicing the replacements in from left to right.

`Parsed.splice?` is the reference: it goes through the markers from left to
right, copies the source up to each marker, puts the answer or the source
at the marker, and copies the source behind the last one. It fails where a
cut is no character boundary or a marker starts before the one in front
of it ends.

The loop of `Parsed.replaceMarkers` edits the text in place from the last
marker to the first and checks each time that the text at the marker still
spells its literal. `Woven` says where markers stand in a text; the invariant
of the loop is that everything in front of the marker at hand is still source
text, so the check never fails and offsets stay right
(`Woven.foldr_eq`).
-/
import SqlMarkers.Proofs.Markers

namespace SqlMarkers

/-! ## Cuts of a text -/

namespace Text

theorem append_of_takeWidth? {n : Nat} {cs as : List Char} (h : takeWidth? n cs = some as) :
    ∃ bs, as ++ bs = cs ∧ width as = n := by
  induction cs generalizing n as with
  | nil =>
      cases n with
      | zero =>
          cases h
          exact ⟨[], rfl, rfl⟩
      | succ n => cases h
  | cons c cs ih =>
      cases n with
      | zero =>
          cases h
          exact ⟨c :: cs, rfl, rfl⟩
      | succ n =>
          rw [takeWidth?] at h
          split at h
          · rename_i hle
            obtain ⟨as', htake, rfl⟩ := Option.map_eq_some_iff.1 h
            obtain ⟨bs, rfl, hwidth⟩ := ih htake
            exact ⟨bs, rfl, by rw [width_cons, hwidth]; omega⟩
          · cases h

theorem append_of_dropWidth? {n : Nat} {cs bs : List Char} (h : dropWidth? n cs = some bs) :
    ∃ as, as ++ bs = cs ∧ width as = n := by
  induction cs generalizing n with
  | nil =>
      cases n with
      | zero =>
          cases h
          exact ⟨[], rfl, rfl⟩
      | succ n => cases h
  | cons c cs ih =>
      cases n with
      | zero =>
          cases h
          exact ⟨[], rfl, rfl⟩
      | succ n =>
          rw [dropWidth?] at h
          split at h
          · rename_i hle
            obtain ⟨as, happend, hwidth⟩ := ih h
            exact ⟨c :: as, by rw [List.cons_append, happend], by rw [width_cons, hwidth]; omega⟩
          · cases h

theorem append_of_slice? {start stop : Nat} {cs bs : List Char}
    (h : slice? start stop cs = some bs) :
    ∃ as rest, as ++ (bs ++ rest) = cs ∧ width as = start ∧ start + width bs = stop := by
  unfold slice? at h
  split at h
  · rename_i hle
    obtain ⟨tail, hdrop, htake⟩ := Option.bind_eq_some_iff.1 h
    obtain ⟨as, rfl, hstart⟩ := append_of_dropWidth? hdrop
    obtain ⟨rest, rfl, hwidth⟩ := append_of_takeWidth? htake
    exact ⟨as, rest, rfl, hstart, by omega⟩
  · cases h

/-- Of two leading parts of a text, the one with fewer bytes is a leading part of
the other one. -/
theorem append_of_width_le {as bs as' bs' : List Char} (h : as ++ bs = as' ++ bs')
    (hle : width as ≤ width as') : ∃ gap, as ++ gap = as' ∧ bs = gap ++ bs' := by
  rcases List.append_eq_append_iff.1 h with ⟨gap, rfl, rfl⟩ | ⟨gap, rfl, rfl⟩
  · exact ⟨gap, rfl, rfl⟩
  · have hgap : gap = [] := by
      rw [width_append] at hle
      cases gap with
      | nil => rfl
      | cons c gap =>
          have := c.utf8Size_pos
          rw [width_cons] at hle
          omega
    subst hgap
    exact ⟨[], by simp, by simp⟩

end Text

/-! ## The reference -/

namespace Parsed

/-- The text from `offset` on, with each marker replaced by the answer of `f`, or
kept where it has none. -/
def spliceFrom? (source : List Char) (f : Marker → Option String) :
    Nat → List Marker → Option (List Char)
  | offset, [] => Text.dropWidth? offset source
  | offset, m :: ms => do
      let gap ← Text.slice? offset m.span.start source
      let kept ← m.span.slice? source
      let rest ← spliceFrom? source f m.span.stop ms
      return gap ++ ((f m).map String.toList).getD kept ++ rest

/-- The source with its markers replaced from left to right. -/
def splice? (p : Parsed) (f : Marker → Option String) : Option (List Char) :=
  spliceFrom? p.source f 0 p.markers

/-- The answers of `f`, with a log of the markers that were asked for, the latest
first. -/
def logging (f : Marker → Option String) (m : Marker) : StateM (List Marker) (Option String) := do
  modify (m :: ·)
  return f m

/-- What one turn of the replacement does to the text. -/
def replaceOne (f : Marker → Option String) (m : Marker) (text : List Char) : List Char :=
  match f m with
  | some replacement => substitute m replacement text
  | none => text

theorem replaceMarkers_eq (p : Parsed) (f : Marker → Option String) :
    p.replaceMarkers f = p.markers.foldr (replaceOne f) p.source := by
  unfold replaceMarkers replaceMarkersM
  generalize p.markers = ms
  induction ms with
  | nil => rfl
  | cons m ms ih =>
      rw [List.foldrM_cons, List.foldr_cons, ← ih]
      simp only [Id.run_bind, replaceOne]
      cases f m <;> rfl

/-- The log of a replacement: every marker once, in order. -/
theorem replaceMarkersM_logging (p : Parsed) (f : Marker → Option String) :
    (p.replaceMarkersM (logging f)).run [] = (p.replaceMarkers f, p.markers) := by
  rw [replaceMarkers_eq]
  unfold replaceMarkersM
  generalize p.markers = ms
  induction ms with
  | nil => rfl
  | cons m ms ih =>
      rw [List.foldrM_cons, StateT.run_bind, ih, List.foldr_cons]
      simp only [logging, replaceOne]
      cases f m <;> rfl

/-! ## One substitution -/

theorem substitute_append {m : Marker} {before after : List Char}
    (hspan : m.span = ⟨Text.width before, Text.width before + Text.width m.literal.toList⟩)
    (replacement : String) :
    substitute m replacement (before ++ (m.literal.toList ++ after)) =
      before ++ (replacement.toList ++ after) := by
  have htake := Text.takeWidth?_width_append before (m.literal.toList ++ after)
  have hslice := Text.slice?_width_append before m.literal.toList after
  have hdrop := Text.dropWidth?_width_append (before ++ m.literal.toList) after
  rw [Text.width_append, List.append_assoc] at hdrop
  rw [substitute, hspan]
  simp only [htake, hslice, hdrop, if_true, List.append_assoc]

/-- Where the literal of a marker does not stand, nothing is replaced. -/
theorem substitute_of_ne {m : Marker} {text : List Char}
    (h : m.span.slice? text ≠ some m.literal.toList) (replacement : String) :
    substitute m replacement text = text := by
  unfold substitute
  split
  · rename_i literal after htake hlit hdrop
    rw [if_neg]
    intro heq
    exact h (by rw [Span.slice?, hlit, heq])
  · rfl

/-- Writing the literal of a marker over itself changes nothing. -/
theorem substitute_literal (m : Marker) (text : List Char) :
    substitute m m.literal text = text := by
  by_cases hslice : Text.slice? m.span.start m.span.stop text = some m.literal.toList
  · obtain ⟨before, after, rfl, hstart, hstop⟩ := Text.append_of_slice? hslice
    refine substitute_append ?_ m.literal
    rw [hstart, hstop]
  · exact substitute_of_ne hslice m.literal

end Parsed

/-! ## Markers in a text -/

/-- The markers stand in a text that starts at `offset`, one behind the other:
each one at its literal, after some text that belongs to no marker. -/
inductive Woven : Nat → List Char → List Marker → Prop
  | nil (offset : Nat) (cs : List Char) : Woven offset cs []
  | cons {offset : Nat} {gap rest : List Char} {m : Marker} {ms : List Marker}
      (hspan : m.span = ⟨offset + Text.width gap,
        offset + Text.width gap + Text.width m.literal.toList⟩)
      (hrest : Woven m.span.stop rest ms) :
      Woven offset (gap ++ (m.literal.toList ++ rest)) (m :: ms)

namespace Woven

/-- Markers that are apart and spell their literal in a text stand in what is left
of it behind any place in front of them. -/
theorem of_apart (before : List Char) {cs : List Char} {ms : List Marker}
    (hapart : ms.Pairwise fun a b => a.span.stop ≤ b.span.start)
    (hspelled : ∀ m ∈ ms, m.span.slice? (before ++ cs) = some m.literal.toList)
    (hbehind : ∀ m ∈ ms, Text.width before ≤ m.span.start) :
    Woven (Text.width before) cs ms := by
  induction ms generalizing before cs with
  | nil => exact .nil _ _
  | cons m ms ih =>
      obtain ⟨hnext, hapart⟩ := List.pairwise_cons.1 hapart
      obtain ⟨front, rest, htext, hstart, hstop⟩ :=
        Text.append_of_slice? (hspelled m List.mem_cons_self)
      have hle := hbehind m List.mem_cons_self
      rw [← hstart] at hle
      obtain ⟨gap, rfl, rfl⟩ := Text.append_of_width_le htext.symm hle
      rw [Text.width_append] at hstart
      refine .cons ?_ ?_
      · rw [hstart, hstop]
      · have hwidth : m.span.stop = Text.width (before ++ gap ++ m.literal.toList) := by
          rw [Text.width_append, Text.width_append]
          omega
        rw [hwidth]
        refine ih _ hapart (fun m' hm' => ?_) (fun m' hm' => ?_)
        · have := hspelled m' (List.mem_cons_of_mem _ hm')
          rwa [← htext, ← List.append_assoc] at this
        · rw [← hwidth]
          exact hnext m' hm'

/-- A marker stands at its literal, and the markers behind it stand in the text
behind it. -/
theorem exists_append {offset : Nat} {cs : List Char} {front behind : List Marker} {m : Marker}
    (h : Woven offset cs (front ++ m :: behind)) :
    ∃ before rest, cs = before ++ (m.literal.toList ++ rest) ∧
      m.span = ⟨offset + Text.width before,
        offset + Text.width before + Text.width m.literal.toList⟩ ∧
      Woven m.span.stop rest behind := by
  induction front generalizing offset cs with
  | nil =>
      cases h with
      | cons hspan hrest => exact ⟨_, _, rfl, hspan, hrest⟩
  | cons m' front ih =>
      cases h with
      | @cons _ gap _ _ _ hspan hrest =>
          obtain ⟨before, rest, rfl, hm, hbehind⟩ := ih hrest
          refine ⟨gap ++ (m'.literal.toList ++ before), rest, by simp, ?_, hbehind⟩
          rw [hm, hspan]
          simp only [Text.width_append, Nat.add_assoc]

/-- What the replacement makes of a text that markers stand in. The text in front
of them is untouched, and what follows is what splicing gives. -/
theorem foldr_eq {offset : Nat} {cs : List Char} {ms : List Marker} (h : Woven offset cs ms)
    (f : Marker → Option String) (before : List Char) (hbefore : Text.width before = offset) :
    ∃ out, Parsed.spliceFrom? (before ++ cs) f offset ms = some out ∧
      ms.foldr (Parsed.replaceOne f) (before ++ cs) = before ++ out := by
  induction h generalizing before with
  | nil offset cs =>
      subst hbefore
      exact ⟨cs, Text.dropWidth?_width_append before cs, rfl⟩
  | @cons offset gap rest m ms hspan hrest ih =>
      subst hbefore
      have hstart : m.span.start = Text.width (before ++ gap) := by
        rw [hspan, Text.width_append]
      have hstop : m.span.stop = Text.width (before ++ gap) + Text.width m.literal.toList := by
        rw [hspan, Text.width_append]
      have htext : before ++ (gap ++ (m.literal.toList ++ rest)) =
          before ++ gap ++ m.literal.toList ++ rest := by simp
      obtain ⟨out, hsplice, hfold⟩ := ih (before ++ gap ++ m.literal.toList) (by
        rw [hstop, Text.width_append])
      have hgap : Text.slice? (Text.width before) m.span.start
          (before ++ (gap ++ (m.literal.toList ++ rest))) = some gap := by
        rw [hstart, Text.width_append]
        exact Text.slice?_width_append before gap _
      have hkept : m.span.slice? (before ++ (gap ++ (m.literal.toList ++ rest))) =
          some m.literal.toList := by
        rw [Span.slice?, hstart, hstop, ← List.append_assoc]
        exact Text.slice?_width_append (before ++ gap) m.literal.toList rest
      rw [← htext] at hsplice hfold
      refine ⟨gap ++ ((f m).map String.toList).getD m.literal.toList ++ out, ?_, ?_⟩
      · rw [Parsed.spliceFrom?, hgap, hkept, hsplice]
        rfl
      · rw [List.foldr_cons, hfold]
        -- The loop has left the text up to the end of this marker alone.
        cases hf : f m with
        | none => simp [Parsed.replaceOne, hf]
        | some replacement =>
            have hm : m.span = ⟨Text.width (before ++ gap),
                Text.width (before ++ gap) + Text.width m.literal.toList⟩ := by
              rw [hspan, Text.width_append]
            simp only [Parsed.replaceOne, hf, List.append_assoc _ m.literal.toList]
            rw [Parsed.substitute_append hm]
            simp

end Woven

/-! ## Replacing the markers of a parsed statement -/

/-- The replacement of the markers of a parsed statement, against the reference. -/
structure Parsed.Replaces (p : Parsed) (f : Marker → Option String) : Prop where
  /-- The result is what splicing from left to right gives. -/
  spliced : p.splice? f = some (p.replaceMarkers f)
  /-- When the turn of a marker comes, its literal still stands at its span. -/
  unguarded : ∀ front m behind, p.markers = front ++ m :: behind →
    m.span.slice? ({ p with markers := behind }.replaceMarkers f) = some m.literal.toList
  /-- Every marker is asked for once. -/
  asked : (p.replaceMarkersM (Parsed.logging f)).run [] = (p.replaceMarkers f, p.markers)
  /-- Replacing each marker by its literal gives back the source. -/
  identity : p.replaceMarkers (fun m => some m.literal) = p.source

/-- The markers of a parsed statement stand in its source. -/
theorem Parsed.WellMarked.woven {p : Parsed} {dialect : Dialect} {source : String}
    (h : p.WellMarked dialect source) : Woven 0 source.toList p.markers :=
  Woven.of_apart [] h.apart (fun m hm => (h.spelled m hm).2) (fun _ _ => Nat.zero_le _)

/-- For every statement that is parsed and every choice of replacements. -/
theorem replaces_of_parse {config : Config} {catalogue : Catalogue} {source : String}
    {p : Parsed} (h : parse config catalogue source = .ok p) (f : Marker → Option String) :
    p.source = source.toList ∧ p.Replaces f := by
  obtain ⟨hsource, hmarkers, r, hrun⟩ := parse_ok h
  obtain ⟨c, log, r₁, hrec, -⟩ := Setting.exists_record hrun
  have hwoven := (hrec.wellMarked hmarkers).woven
  rw [← hsource] at hwoven
  refine ⟨hsource, ?_, ?_, Parsed.replaceMarkersM_logging p f, ?_⟩
  · obtain ⟨out, hsplice, hfold⟩ := hwoven.foldr_eq f [] rfl
    rw [Parsed.replaceMarkers_eq]
    exact hsplice.trans (congrArg some hfold.symm)
  · intro front m behind hmarkers
    rw [hmarkers] at hwoven
    obtain ⟨before, rest, htext, hspan, hbehind⟩ := hwoven.exists_append
    rw [Nat.zero_add] at hspan
    obtain ⟨out, -, hfold⟩ := hbehind.foldr_eq f (before ++ m.literal.toList) (by
      rw [hspan, Text.width_append])
    rw [Parsed.replaceMarkers_eq, Span.slice?, hspan, htext, ← List.append_assoc, hfold,
      List.append_assoc]
    exact Text.slice?_width_append before m.literal.toList out
  · rw [Parsed.replaceMarkers_eq]
    generalize p.markers = ms
    induction ms with
    | nil => rfl
    | cons m ms ih =>
        rw [List.foldr_cons, ih]
        exact Parsed.substitute_literal m p.source

/-- A longer name, a shorter one, and a marker that stays. -/
theorem replaces_select : ∃ p,
    parse {} Catalogue.everyName "SELECT ord.a FROM ord o, bill WHERE o.b = bill.c" = .ok p ∧
      p.Replaces (fun m => if m.literal = "ord" then some "ord_17"
        else if m.literal = "bill" then some "b" else none) ∧
      p.replaceMarkers (fun m => if m.literal = "ord" then some "ord_17"
        else if m.literal = "bill" then some "b" else none) =
          "SELECT ord_17.a FROM ord_17 o, b WHERE o.b = b.c".toList := by
  obtain ⟨p, h, htext⟩ : ∃ p,
      parse {} Catalogue.everyName "SELECT ord.a FROM ord o, bill WHERE o.b = bill.c" = .ok p ∧
        p.replaceMarkers (fun m => if m.literal = "ord" then some "ord_17"
          else if m.literal = "bill" then some "b" else none) =
            "SELECT ord_17.a FROM ord_17 o, b WHERE o.b = b.c".toList :=
    exists_of_any (by decide +kernel)
  exact ⟨p, h, (replaces_of_parse h _).2, htext⟩

end SqlMarkers
