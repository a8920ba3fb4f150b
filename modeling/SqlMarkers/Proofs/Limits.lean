/-
SqlMarkers.Proofs.Limits — what the nesting limit means for a statement.

The limit only ever rejects (`parse_of_maxDepth_le`): a statement that is not rejected
at a limit gives the same result under every higher one, and a reader that is refused
anywhere, also in a group that is only tried, makes the whole parse fail with the error
of the limit.

A reader that is refused says so in the reading it leaves (`Setting.meetsLimit`), and that
note is never taken back. So whether a statement met the limit can be told from the
reading at its end, whatever happened to the group in which the refusal took place.
-/
import SqlMarkers.Proofs.Markers
import SqlMarkers.Proofs.Nesting.Statement

namespace SqlMarkers

/-! ## The error of the limit -/

/-- Whether a failure is the error that the nesting limit is exceeded. -/
def Failure.ExceedsLimit (limit : Nat) : Failure → Prop
  | .error e => e.kind = .grammar ∧ e.detail = "nesting depth exceeds limit of " ++ toString limit
  | .undecodable => False

instance (limit : Nat) : DecidablePred (Failure.ExceedsLimit limit) := fun f =>
  match f with
  | .error e => inferInstanceAs (Decidable (e.kind = .grammar ∧ e.detail = _))
  | .undecodable => inferInstanceAs (Decidable False)

/-- No other cause is worded like that of the limit: the first two letters tell. -/
theorem GrammarCause.take_detail {cause : GrammarCause} (h : ∀ n, cause ≠ .nesting n) :
    cause.detail.toList.take 2 ≠ ['n', 'e'] := by
  cases cause with
  | nesting n => exact absurd rfl (h n)
  | expected what found =>
      cases found with
      | none =>
          show ("expected " ++ what ++ ", found end of input").toList.take 2 ≠ _
          simp
      | some text =>
          show ("expected " ++ what ++ ", found '" ++ text ++ "'").toList.take 2 ≠ _
          simp
  | unsupported what =>
      show ("unsupported " ++ what).toList.take 2 ≠ _
      simp
  | _ => decide

theorem Fault.exceedsLimit_nesting (offset limit : Nat) (source : List Char) :
    ((Fault.grammar offset (.nesting limit)).toFailure source).ExceedsLimit limit := by
  have hdetail : (GrammarCause.nesting limit).detail =
      "nesting depth exceeds limit of " ++ toString limit := rfl
  exact ⟨rfl, hdetail⟩

theorem Fault.isNesting_of_exceedsLimit {f : Fault} {source : List Char} {limit : Nat}
    (h : (f.toFailure source).ExceedsLimit limit) : f.isNesting = true := by
  have hfirst : ∀ s : String, s = "nesting depth exceeds limit of " ++ toString limit →
      s.toList.take 2 = ['n', 'e'] := by
    intro s hs
    simp [hs]
  cases f with
  | lexical offset cause => cases h.1
  | undecodable | overflow => exact h.elim
  | stalled => exact absurd (hfirst "no progress" h.2) (by decide)
  | grammar offset cause =>
      cases cause with
      | nesting => rfl
      | _ => exact absurd (hfirst _ h.2) (GrammarCause.take_detail (by simp))

/-! ## The reading at the end -/

/-- The reading that a step leaves, with a result or with a fault. -/
def Reader.after {α : Type} (m : Reader α) (r : Reading) : Reading :=
  match m r with
  | .ok _ r' => r'
  | .error _ r' => r'

/-- What a step gives, with the reading that it leaves if there is a result. -/
def Reader.outcome {α : Type} (m : Reader α) (r : Reading) : Except Fault (α × Reading) :=
  match m r with
  | .ok a r' => .ok (a, r')
  | .error f _ => .error f

theorem Setting.run_of_cursor (env : Setting) {c : Cursor}
    (h : Cursor.ofText env.dialect env.source = .ok c) :
    env.run = (Reader.wholeStatement env (Inner.upTo env env.limit)).outcome
      (Reading.start c) := by
  unfold Setting.run Reader.outcome
  split
  · rename_i hcursor
    cases h.symm.trans hcursor
  · rename_i c' hcursor
    obtain rfl : c = c' := Except.ok.inj (h.symm.trans hcursor)
    cases Reader.wholeStatement env (Inner.upTo env env.limit) (Reading.start c) <;> rfl

/-- Whether a reader was refused at the nesting limit while the statement was read. -/
def Setting.meetsLimit (env : Setting) : Bool :=
  match Cursor.ofText env.dialect env.source with
  | .ok c => (Reader.wholeStatement env (Inner.upTo env env.limit)).after (Reading.start c)
      |>.nesting.exhausted
  | .error _ => false

theorem Cursor.isNesting_ofText {d : Dialect} {source : List Char} {f : Fault}
    (h : Cursor.ofText d source = .error f) : f.isNesting = false := by
  unfold Cursor.ofText Cursor.ofStream at h
  split at h
  · cases h
  · cases h
    rfl
  · cases h
    rfl

/-- A statement is refused at the limit, or it is read as under any higher limit and
gives no tree that is higher than the limit. -/
inductive Setting.Confined (env : Setting) (limit : Nat) : Prop
  | refused {offset : Nat} (meets : env.meetsLimit = true)
      (run : env.run = .error (.grammar offset (.nesting env.limit)))
  | fault {f : Fault} (meets : env.meetsLimit = false) (other : f.isNesting = false)
      (run : env.run = .error f) (same : (env.withLimit limit).run = env.run)
  | ok {s : Statement} {r : Reading} (meets : env.meetsLimit = false)
      (height : s.height ≤ env.limit) (run : env.run = .ok (s, r))
      (same : (env.withLimit limit).run = env.run)

theorem Setting.confined (env : Setting) {limit : Nat} (h : env.limit ≤ limit) :
    env.Confined limit := by
  cases hcursor : Cursor.ofText env.dialect env.source with
  | error f =>
      have hrun : ∀ limit, (env.withLimit limit).run = .error f := by
        intro limit
        simp only [Setting.run, Setting.withLimit, hcursor]
      have hmeets : env.meetsLimit = false := by simp only [Setting.meetsLimit, hcursor]
      exact .fault hmeets (Cursor.isNesting_ofText hcursor) (hrun env.limit)
        ((hrun limit).trans (hrun env.limit).symm)
  | ok c =>
      have hin := Inner.upTo_capped h h env.limit (Nat.le_refl _)
      have hwhole : Reader.Capped (.below env.limit) env.limit (fun s => s.height ≤ env.limit)
          (Reader.wholeStatement env (Inner.upTo env env.limit))
          (Reader.wholeStatement env (Inner.upTo (env.withLimit limit) limit)) :=
        Reader.wholeStatement_capped hin
      have hcap := hwhole (Reading.start c) ⟨trivial, Nat.zero_le _⟩
      have hmeets : env.meetsLimit = ((Reader.wholeStatement env
          (Inner.upTo env env.limit)).after (Reading.start c)).nesting.exhausted := by
        simp only [Setting.meetsLimit, hcursor]
      have hrun := Setting.run_of_cursor env hcursor
      have hrun' : (env.withLimit limit).run = (Reader.wholeStatement env
          (Inner.upTo (env.withLimit limit) limit)).outcome (Reading.start c) :=
        Setting.run_of_cursor (env.withLimit limit) hcursor
      unfold Reader.after at hmeets
      unfold Reader.outcome at hrun hrun'
      revert hcap hmeets hrun hrun'
      generalize Reader.wholeStatement env (Inner.upTo env env.limit) (Reading.start c) = x
      generalize Reader.wholeStatement env _ (Reading.start c) = x'
      intro hcap hmeets hrun hrun'
      cases hcap with
      | ok hheight _ hnesting =>
          rw [hnesting] at hmeets
          exact .ok hmeets hheight hrun (hrun'.trans hrun.symm)
      | fault hother hnesting =>
          rw [hnesting] at hmeets
          exact .fault hmeets hother hrun (hrun'.trans hrun.symm)
      | refused hnesting _ =>
          rw [hnesting] at hmeets
          exact .refused hmeets hrun

/-! ## Higher limits -/

/-- Whether a parse fails with the error of the limit. -/
def Parsed.Rejected (limit : Nat) : Except Failure Parsed → Prop
  | .error f => f.ExceedsLimit limit
  | .ok _ => False

instance (limit : Nat) : DecidablePred (Parsed.Rejected limit) := fun result =>
  match result with
  | .error f => inferInstanceAs (Decidable (f.ExceedsLimit limit))
  | .ok _ => inferInstanceAs (Decidable False)

/-- Every tower of nested readers keeps to the limit, whatever is attached to the scope. -/
theorem Inner.capped_upTo (env : Setting) (n : Nat) (r : Reading) :
    ∃ room, (Cap.below env.limit).Admits room r ∧
      (Inner.upTo env n).Capped (.below env.limit) n room (Inner.upTo env n) := by
  refine ⟨max n (Query.heightIn r.draft.subqueries), ⟨trivial, Nat.le_max_right _ _⟩, ?_⟩
  exact Inner.upTo_capped (Nat.le_refl env.limit) (Nat.le_refl n) _ (Nat.le_max_left _ _)

/-- A group that meets the limit is not given up. -/
theorem Reader.attemptGroup_of_isNesting {env : Setting} {n : Nat} {r r' : Reading} {f : Fault}
    (h : (Inner.upTo env n).group r = .error f r') (hf : f.isNesting = true) :
    Reader.attemptGroup env (Inner.upTo env n) r = .error f r' := by
  obtain ⟨room, hr, hin⟩ := Inner.capped_upTo env n r
  have hcap := hin.group r hr
  rw [h] at hcap
  cases hcap with
  | fault hother _ =>
      rw [hother] at hf
      cases hf
  | refused hnesting _ => simp [Reader.attemptGroup, h, hnesting, Nesting.refused]

/-- Under a higher limit a statement that is not rejected gives the same result, and it
is rejected as soon as any reader is refused. -/
theorem parse_of_maxDepth_le (config : Config) (catalogue : Catalogue) (source : String)
    {depth : Nat} (h : config.maxDepth ≤ depth) :
    (¬Parsed.Rejected config.maxDepth (parse config catalogue source) →
      parse { config with maxDepth := depth } catalogue source = parse config catalogue source) ∧
    ((config.setting catalogue source).meetsLimit = true ↔
      Parsed.Rejected config.maxDepth (parse config catalogue source)) ∧
    ∀ n r f r', (Inner.upTo (config.setting catalogue source) n).group r = .error f r' →
      f.isNesting = true →
        Reader.attemptGroup (config.setting catalogue source)
          (Inner.upTo (config.setting catalogue source) n) r = .error f r' := by
  have hconfined := (config.setting catalogue source).confined h
  refine ⟨fun hnot => ?_, ?_, fun n r f r' => Reader.attemptGroup_of_isNesting⟩
  · have hdeeper : Config.setting { config with maxDepth := depth } catalogue source =
        (config.setting catalogue source).withLimit depth := rfl
    cases hconfined with
    | refused _ hrun =>
        rw [parse_of_error hrun] at hnot
        exact absurd (Fault.exceedsLimit_nesting ..) hnot
    | fault _ _ hrun hsame =>
        rw [← hdeeper, hrun] at hsame
        rw [parse_of_error hrun, parse_of_error hsame]
    | ok _ _ hrun hsame =>
        rw [← hdeeper, hrun] at hsame
        rw [parse_of_run hrun, parse_of_run hsame]
  · cases hconfined with
    | refused hmeets hrun =>
        rw [parse_of_error hrun]
        exact iff_of_true hmeets (Fault.exceedsLimit_nesting ..)
    | fault hmeets hother hrun _ =>
        rw [parse_of_error hrun]
        refine iff_of_false (by simp [hmeets]) fun hexceeds => ?_
        rw [Fault.isNesting_of_exceedsLimit hexceeds] at hother
        cases hother
    | ok hmeets _ hrun _ =>
        rw [parse_of_run hrun]
        exact iff_of_false (by simp [hmeets]) id

/-- Two groups, one in the other. Under a limit of 1 they are rejected, though the inner
one could be read as an operand; from 2 on the limit makes no difference. -/
theorem parse_groups :
    Parsed.Rejected 1
        (parse { maxDepth := 1 } Catalogue.everyName "SELECT a FROM t WHERE ((a) = 1)") ∧
      ¬Parsed.Rejected 2
        (parse { maxDepth := 2 } Catalogue.everyName "SELECT a FROM t WHERE ((a) = 1)") ∧
      parse { maxDepth := 64 } Catalogue.everyName "SELECT a FROM t WHERE ((a) = 1)" =
        parse { maxDepth := 2 } Catalogue.everyName "SELECT a FROM t WHERE ((a) = 1)" := by
  have hnot : ¬Parsed.Rejected 2
      (parse { maxDepth := 2 } Catalogue.everyName "SELECT a FROM t WHERE ((a) = 1)") := by
    decide +kernel
  exact ⟨by decide +kernel, hnot, (parse_of_maxDepth_le { maxDepth := 2 } Catalogue.everyName
    "SELECT a FROM t WHERE ((a) = 1)" (by decide : 2 ≤ 64)).1 hnot⟩

end SqlMarkers
