import ShapeGrammar.Proofs.Identity

/-!
# The recorder's limit

The recorder looks at the number of its draws when it is asked about an instance,
and not while a path is drawn. A run into a new recorder stays within the limit,
except that the path which reaches it is still drawn to its last command. Which
path that is, the notes of the run tell.
-/

set_option autoImplicit false

namespace ShapeGrammar

variable {α : Type} [Scalar α]

/-- The notes are of at most as many draws as allowed, or else of fewer than that
before those of one whole path, and of none after it. -/
def Note.Within (limits : Limits α) (log : List (Note α)) : Prop :=
  (log.filterMap Note.draw?).length ≤ limits.maxCommands ∨
    ∃ before after i uid p, p.uid = some uid ∧ log = before ++ Note.ofPath i uid p ++ after ∧
      (before.filterMap Note.draw?).length < limits.maxCommands ∧
      after.filterMap Note.draw? = []

theorem Note.Within.quiet {limits : Limits α} {log : List (Note α)} (h : Within limits log)
    {n : Note α} (none : n.draw? = none) : Within limits (log ++ [n]) := by
  rcases h with few | ⟨before, after, i, uid, p, known, split, room, last⟩
  · left
    simpa [none] using few
  · right
    exact ⟨before, after ++ [n], i, uid, p, known, by simp [split], room, by simp [last, none]⟩

omit [Scalar α] in
theorem Note.draws_taken (rule : Rule α) (log : List (Note α)) :
    (log ++ [taken rule]).filterMap draw? = log.filterMap draw? := by
  rw [List.filterMap_append]
  exact List.append_nil _

namespace Recorder

theorem room_of_cutoff {limits : Limits α} {i : Instance α} {depth : Nat} {r after : Recorder α}
    (h : cutoff limits i depth r = (.expand, after)) : after.draws.size < limits.maxCommands := by
  unfold cutoff at h
  by_cases full : limits.maxCommands ≤ r.draws.size
  · rw [if_pos full] at h
    cases h
  · rw [if_neg full] at h
    split at h
    · cases h
    · cases h
      exact Nat.lt_of_not_le full

omit [Scalar α] in
theorem Records.length_draws {r : Recorder α} {log : List (Note α)} (h : r.Records log) :
    (log.filterMap Note.draw?).length = r.draws.size := by
  rw [← h.draws, Array.length_toList]

def account (g : Grammar α) (limits : Limits α) :
    Account g (renderer limits).noted Note.announce where
  kept b := b.renderer.1.Records b.renderer.2 ∧ Note.Within limits b.renderer.2
  admitted b := b.renderer.1.Records b.renderer.2 ∧
    (b.renderer.2.filterMap Note.draw?).length < limits.maxCommands
  allow i depth b x kept answered := by
    have records := (Records.account g limits).allow i depth b x kept.1 answered
    have asked : cutoff limits i depth b.renderer.1 = (.expand, x.1) :=
      congrArg (fun answer => (answer.1, answer.2.1)) answered
    exact ⟨records, records.length_draws ▸ room_of_cutoff asked⟩
  refuse i depth b verdict x kept refused answered := by
    have log : b.renderer.2 ++ [.call (.cutoff i depth (cutoff limits i depth b.renderer.1).1)] =
        x.2 := congrArg (·.2.2) answered
    exact ⟨(Records.account g limits).refuse i depth b verdict x kept.1 refused answered,
      log ▸ kept.2.quiet rfl⟩
  primitive i p b admitted := by
    refine ⟨(Records.account g limits).primitive i p b admitted.1, .inl ?_⟩
    simpa [Renderer.noted, Note.draw?] using Nat.succ_le_of_lt admitted.2
  settled b admitted := ⟨admitted.1, .inl (Nat.le_of_lt admitted.2)⟩
  taken i j rule b at_ admitted := by
    refine ⟨(Records.account g limits).taken i j rule b at_ admitted.1, .inl ?_⟩
    exact (Note.draws_taken rule b.renderer.2).symm ▸ Nat.le_of_lt admitted.2
  path i j rule x p uid b b' at_ admitted fetched known := by
    refine ⟨(Records.account g limits).path i j rule x p uid b b' at_ admitted.1 fetched known,
      .inr ⟨b.renderer.2 ++ [.taken rule], [], x, uid, p, known, ?_, ?_, rfl⟩⟩
    · have untouched : b'.renderer = Note.announce rule b.renderer := by cases fetched <;> rfl
      rw [untouched, Renderer.noted_drawAll, List.append_nil]
      rfl
    · exact (Note.draws_taken rule b.renderer.2).symm ▸ admitted.2

end Recorder

/-- However a run into a new recorder ends, it leaves at most as many draws as the
limits allow, or else the last of them are those of one whole path that was begun
below the limit: so say the notes of the run, which change nothing in it. -/
theorem Setting.run_within_limits {d : Draft α} {g : Grammar α} (drafted : d.Drafted)
    (built : d.build = .ok g) (limits : Limits α) (options : Options) (fuel start : Nat)
    (store : Store α) :
    let plain := ((standard g (Recorder.renderer limits) options).run fuel start).run
      (.begin options.seed store .empty)
    let noted := ((standard g (Recorder.renderer limits).noted options).runNoting Note.announce
      fuel start).run (.begin options.seed store (.empty, []))
    noted.mapState Session.unnoted = plain ∧
      plain.state.renderer.draws.toList = noted.state.renderer.2.filterMap Note.draw? ∧
      Note.Within limits noted.state.renderer.2 := by
  intro plain noted
  have same : noted.mapState Session.unnoted = plain :=
    runNoting_unnoted (drafted.globals built) (Recorder.renderer limits) options fuel start
      (.begin options.seed store (.empty, []))
  have kept := runNoting_kept drafted built (Recorder.account g limits) options fuel start
    (s := .begin options.seed store (.empty, [])) ⟨.empty, .inl (Nat.zero_le _)⟩
  obtain ⟨records, within⟩ := kept
  have recorder : plain.state.renderer = noted.state.renderer.1 := by
    rw [← same, Outcome.state_mapState]
    rfl
  exact ⟨same, recorder ▸ records.draws, within⟩

def Sample.single : Limits Rat := { Limits.standard with maxCommands := 1 }

theorem Setting.run_within_limits_sample :
    let plain := ((standard Sample.grammar (Recorder.renderer Sample.single) Sample.options).run 9
      1).run (.begin Sample.options.seed .empty .empty)
    let noted := ((standard Sample.grammar (Recorder.renderer Sample.single).noted
      Sample.options).runNoting Note.announce 9 1).run
        (.begin Sample.options.seed .empty (.empty, []))
    Sample.draft.Drafted ∧ Sample.draft.build = .ok Sample.grammar ∧
      plain.state.renderer.draws.toList = noted.state.renderer.2.filterMap Note.draw? ∧
      Note.Within Sample.single noted.state.renderer.2 :=
  ⟨Sample.draft_drafted, Sample.draft_build,
    (run_within_limits Sample.draft_drafted Sample.draft_build Sample.single Sample.options 9 1
      .empty).2⟩

/-! ### A path over the limit -/

namespace Sample

def slant : Path.Op Rat := ⟨.lineTo, [(.x, number 1), (.y, number 1)], .empty, false,
  some ((Path.Args.zero.set .x 1).set .y 1)⟩

def badge : Body Rat :=
  .ofStatements [.op (head .none) corner, .op (head .none) slant,
    .command (head .none) ⟨.fill, .empty, none, none⟩,
    .command (head .none) ⟨.stroke, .empty, none, none⟩]

def emblem : Draft Rat :=
  (Draft.empty.declareShape "badge" true []).1.addRule 0 .unstated badge .none

theorem badge_made : ∀ st ∈ badge.statements, st.Made := by
  have opened : Path.Op.make .moveTo [] .empty = .ok corner := rfl
  have drawn : Path.Op.make .lineTo [(.x, number 1), (.y, number 1)] .empty = .ok slant := rfl
  have filled : Path.CommandSpec.make .fill .empty (none : Option (Expr Rat)) none =
    .ok ⟨.fill, .empty, none, none⟩ := rfl
  have stroked : Path.CommandSpec.make .stroke .empty (none : Option (Expr Rat)) none =
    .ok ⟨.stroke, .empty, none, none⟩ := rfl
  rintro st (_ | ⟨_, _ | ⟨_, _ | ⟨_, _ | ⟨_, ⟨⟩⟩⟩⟩⟩)
  · exact .op opened
  · exact .op drawn
  · exact .command filled
  · exact .command stroked

theorem emblem_drafted : emblem.Drafted :=
  ((Draft.Drafted.empty).declareShape "badge" true []).addRule 0 .unstated badge_made .none

theorem emblem_build : emblem.build = .ok emblem.resolved := by
  have errors : emblem.errors = [] := by decide +kernel
  exact Draft.build_eq_ok.mpr ⟨errors, rfl⟩

end Sample

/-- Both commands of the path are drawn where one draw is allowed, and the run
succeeds. -/
theorem Setting.run_over_limit :
    Sample.emblem.Drafted ∧ Sample.emblem.build = .ok Sample.emblem.resolved ∧
      ∃ t, ((standard Sample.emblem.resolved (Recorder.renderer Sample.single) Sample.options).run 9
        0).run (.begin Sample.options.seed .empty .empty) = .ok () t ∧
        Sample.single.maxCommands < t.renderer.draws.size := by
  refine ⟨Sample.emblem_drafted, Sample.emblem_build, ?_⟩
  have ended : (match ((standard Sample.emblem.resolved (Recorder.renderer Sample.single)
      Sample.options).run 9 0).run (.begin Sample.options.seed .empty .empty) with
    | .ok _ t => decide (Sample.single.maxCommands < t.renderer.draws.size)
    | .failed _ _ => false) = true := by decide +kernel
  generalize ((standard Sample.emblem.resolved (Recorder.renderer Sample.single)
    Sample.options).run 9 0).run (.begin Sample.options.seed .empty .empty) = o at ended ⊢
  cases o with
  | ok b t => exact ⟨t, rfl, of_decide_eq_true ended⟩
  | failed e t => cases ended

end ShapeGrammar
