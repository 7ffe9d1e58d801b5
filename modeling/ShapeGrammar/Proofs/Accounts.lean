import ShapeGrammar.Proofs.Coverage
import ShapeGrammar.Proofs.Noting

/-!
# Keeping the books

With notes or without, what a run makes of its paths and of its renderer comes
down to three things: an instance is asked about, a primitive is drawn for one
that was admitted, or the path of a rule is fetched and drawn command by command.
What these keep true is true of every run, however the run may end.
-/

set_option autoImplicit false

namespace ShapeGrammar

open Attempt

variable {σ α β : Type}

/-! ### Paths on the books -/

/-- What a run makes of its paths and its renderer. -/
structure Books (σ α : Type) where
  paths : List (Address × Path.Compiled α)
  nextUid : Nat
  renderer : σ

def Backdrop.books (b : Backdrop σ α) : Books σ α := ⟨b.paths, b.nextUid, b.renderer⟩

abbrev Session.books (s : Session σ α) : Books σ α := s.backdrop.books

/-- The path of a rule is taken from its cell, or is built, given the next identity
and kept in the cell if there is one. -/
inductive Books.Fetches [Scalar α] (rule : Rule α) (b : Books σ α) (p : Path.Compiled α) :
    Books σ α → Prop
  | kept {place : Address} (cell : rule.cell = some place) (found : b.paths.lookup place = some p) :
      Fetches rule b p b
  | built (missed : ∀ place, rule.cell = some place → b.paths.lookup place = none)
      (uid : p.uid = some b.nextUid) (whole : p.Whole) :
      Fetches rule b p { b with
        paths := rule.cell.toList.map (·, p) ++ b.paths
        nextUid := b.nextUid + 1 }

theorem Books.Fetches.of_uid_none [Scalar α] {rule : Rule α} {b b' : Books σ α}
    {p : Path.Compiled α} (h : b.Fetches rule p b') (none : p.uid = none) : b' = b := by
  cases h with
  | kept => rfl
  | built _ uid => cases none.symm.trans uid

variable [Scalar α]

def Course.quiet (books : Books σ α) : Course σ α where
  holds b := b.books = books ∧ ∀ p, b.building = some p → p.Ranged
  ends _ b := b.books = books
  may _ := True
  fails _ _ _ holds := holds.1
  fuel := trivial
  evaluation _ := trivial
  taken _ _ := trivial
  range _ _ _ _ := trivial

theorem Course.quiet_pliant (books : Books σ α) : (Course.quiet books).Pliant where
  may _ _ := trivial
  extend b p q holds building step := by
    refine ⟨holds.1, fun other same => ?_⟩
    cases same
    exact (holds.2 p building).extends step

namespace Context

variable {c : Context σ α}

/-- A path that is built gets the next identity, and a build that fails leaves the
books as they were. -/
theorem buildPath_books (keeps : c.Keeps) (env : ∀ k : Course σ α, k.OfEnv c.env) {rule : Rule α}
    (suits : rule.body.yield.Suits true) (params : List (Value α)) (s : Session σ α) :
    match (buildPath rule (c.enterBody rule.body) params).run s with
    | .ok p t => p.uid = some s.books.nextUid ∧ p.Whole ∧
        t.books = { s.books with nextUid := s.books.nextUid + 1 }
    | .failed _ t => t.books = s.books := by
  cases building : s.building with
  | some p => rw [buildPath_nested rule _ params (by simp [building])]
  | none =>
    have stays := (Course.quiet_pliant s.books).enterBody (env _) keeps (b := rule.body)
      (.inr suits) (.root rule.shape) false params
    have ends := Course.stays_iff.mp stays s.opening ⟨rfl, fun p same => by
      cases same
      exact .empty _⟩
    cases hb : (c.enterBody rule.body (.root rule.shape) false params).run s.opening with
    | ok u t =>
      obtain ⟨p, opened, -, -, incomplete, run⟩ := buildPath_ok rule
        (keeps.enterBody rule.body (.root rule.shape) false params) building hb
      rw [hb] at ends
      obtain ⟨same, ranged⟩ := ends
      have next : t.store.nextUid = s.store.nextUid := congrArg Books.nextUid same
      rw [run]
      refine ⟨congrArg some next, (ranged p opened).whole incomplete _, ?_⟩
      exact congrArg (fun b : Books σ α => { b with nextUid := b.nextUid + 1 }) same
    | failed e t =>
      rw [hb] at ends
      rw [buildPath_failed rule building hb]
      exact ends

/-- The path of a rule is fetched, or else nothing is kept in its cell. -/
theorem keptPath_books (reuse : c.strategy.reuse = true) (keeps : c.Keeps)
    (env : ∀ k : Course σ α, k.OfEnv c.env) {rule : Rule α} (suits : rule.body.yield.Suits true)
    (params : List (Value α)) (s : Session σ α) :
    match (c.keptPath rule (c.enterBody rule.body) params).run s with
    | .ok p t => s.books.Fetches rule p t.books
    | .failed _ t => t.books = s.books ∧
        ∀ place, rule.cell = some place → s.books.paths.lookup place = none := by
  have cell : c.cellOf rule = rule.cell := if_pos reuse
  rcases c.stock rule s with ⟨place, p, here, found⟩ | missed
  · rw [keptPath_hit here found]
    exact .kept (cell ▸ here) found
  · have built := buildPath_books keeps env suits params s
    rw [keptPath_miss missed, cell]
    rw [cell] at missed
    cases hb : (buildPath rule (c.enterBody rule.body) params).run s with
    | ok p t =>
      rw [hb] at built
      obtain ⟨uid, whole, books⟩ := built
      have fetched : s.books.Fetches rule p { t.books with
          paths := rule.cell.toList.map (·, p) ++ t.books.paths } := by
        rw [books]
        exact .built missed uid whole
      cases place : rule.cell with
      | none =>
        rw [place] at fetched
        exact fetched
      | some place' =>
        rw [place] at fetched
        exact fetched
    | failed e t =>
      rw [hb] at built
      exact ⟨built, missed⟩

end Context

/-! ### Accounts -/

def Grammar.RuleAt (g : Grammar α) (i j : Nat) (rule : Rule α) : Prop :=
  ∃ shape, g.shapes[i]? = some shape ∧ shape.rules[j]? = some rule

/-- What is to be true of the books all along a run, and what more is true of them
when an instance has just been admitted. -/
structure Account (g : Grammar α) (r : Renderer σ α) (note : Rule α → σ → σ) where
  kept : Books σ α → Prop
  admitted : Books σ α → Prop
  allow : ∀ i depth b x, kept b → r.cutoff i depth b.renderer = (.expand, x) →
    admitted { b with renderer := x }
  refuse : ∀ i depth b verdict x, kept b → verdict ≠ .expand →
    r.cutoff i depth b.renderer = (verdict, x) → kept { b with renderer := x }
  primitive : ∀ i p b, admitted b → kept { b with renderer := r.drawPrimitive i p b.renderer }
  settled : ∀ b, admitted b → kept b
  taken : ∀ i j rule b, g.RuleAt i j rule → admitted b →
    kept { b with renderer := note rule b.renderer }
  path : ∀ i j rule x p uid b b', g.RuleAt i j rule → admitted b →
    Books.Fetches rule { b with renderer := note rule b.renderer } p b' → p.uid = some uid →
    kept { b' with renderer := r.drawAll x uid p p.allCommands b'.renderer }

/-- What every act of the renderer and every note keeps true needs no more. -/
def Account.ofRenderer (g : Grammar α) {r : Renderer σ α} {note : Rule α → σ → σ} (I : σ → Prop)
    (cutoff : ∀ i depth s, I s → I (r.cutoff i depth s).2)
    (primitive : ∀ i p s, I s → I (r.drawPrimitive i p s))
    (path : ∀ i uid p command s, I s → I (r.drawPath i uid p command s))
    (noted : ∀ rule s, I s → I (note rule s)) : Account g r note where
  kept b := I b.renderer
  admitted b := I b.renderer
  allow i depth b x kept answered := by
    have after := cutoff i depth b.renderer kept
    rwa [answered] at after
  refuse i depth b _ x kept _ answered := by
    have after := cutoff i depth b.renderer kept
    rwa [answered] at after
  primitive i p b kept := primitive i p b.renderer kept
  settled _ := id
  taken _ _ rule b _ kept := noted rule b.renderer kept
  path _ _ rule i p uid b b' _ kept fetched _ := by
    have untouched : b'.renderer = note rule b.renderer := by cases fetched <;> rfl
    rw [untouched]
    exact List.foldlRecOn p.allCommands _ (noted rule b.renderer kept)
      fun s hs command _ => path _ uid p command s hs

namespace Account

variable {g : Grammar α} {r : Renderer σ α} {note : Rule α → σ → σ} (a : Account g r note)

/-- From books of which `P` is true to books that are kept, however it ends. -/
abbrev Leads (P : Books σ α → Prop) (x : Action σ α β) : Prop :=
  Attempt.Leads (single fun _ t => a.kept t.books) (Twice fun s => P s.books)
    (Twice fun s => a.kept s.books) Eq x x

abbrev Noted (rule : Rule α) (b : Books σ α) : Prop :=
  ∃ before, a.admitted before ∧ b = { before with renderer := note rule before.renderer }

def course (P : Books σ α → Prop) (settled : ∀ b, P b → a.kept b) : Course σ α where
  holds b := P b.books
  ends _ b := a.kept b.books
  may _ := True
  fails _ b _ := settled b.books
  fuel := trivial
  evaluation _ := trivial
  taken _ _ := trivial
  range _ _ _ _ := trivial

theorem course_pliant {P : Books σ α → Prop} (settled : ∀ b, P b → a.kept b) :
    (a.course P settled).Pliant where
  may _ _ := trivial
  extend _ _ _ holds _ _ := holds

abbrev open_ : Course σ α := a.course a.kept fun _ => id

structure Rules (c : Context σ α) : Prop where
  renderer : c.renderer = r
  reuse : c.strategy.reuse = true
  keeps : c.Keeps
  env : ∀ k : Course σ α, k.OfEnv c.env
  expand : ∀ i, a.open_.Stays (c.expand i)

variable {a} {c : Context σ α}

theorem consult (renderer : c.renderer = r) (i : Instance α) {draw : Action σ α Unit}
    (admitted : a.Leads a.admitted draw) : a.open_.Stays (do if ← c.consult i then draw) := by
  refine Course.stays_iff.mpr fun s hs => ?_
  have drawn := leads_single_iff.mp admitted
  simp only [run_bind, Context.consult, renderer]
  generalize answered : r.cutoff i (s.depth + 1) s.renderer = answer
  obtain ⟨verdict, x⟩ := answer
  cases verdict with
  | expand => exact drawn { s with renderer := x } (a.allow i _ s.books x hs answered)
  | skip => exact a.refuse i _ s.books .skip x hs nofun answered
  | abort => exact a.refuse i _ s.books .abort x hs nofun answered

theorem Rules.replace (h : a.Rules c) (head : Head α) (parent : Instance α) :
    a.open_.Stays (c.replace head parent) := by
  unfold Context.replace
  split
  · exact Attempt.Leads.pure rfl
  case h_2 p _ =>
    refine ((h.env _).adjust parent head.mods).andThen fun child => ?_
    refine consult h.renderer _ (Attempt.Leads.update ?_)
    rintro s _ ⟨rfl, admitted⟩
    rw [h.renderer]
    exact ⟨rfl, a.primitive _ p _ admitted⟩
  · split
    · exact Course.stays_fail trivial
    case h_2 shape _ =>
      refine ((h.env _).adjust parent head.mods).andThen fun child => ?_
      by_cases length : head.args.length = shape.params.length
      · rw [if_neg (not_not_intro length)]
        refine Attempt.Leads.bind (Context.bindArgs_inStep (h.env _).free shape.params head.args
          (fun _ _ _ _ => trivial) length) ?_
        rintro values _ ⟨rfl, -⟩
        exact h.expand _
      · rw [if_pos length]
        exact Course.stays_fail trivial

/-- What is true of the books does not depend on how deep the session is, nor on
its names. -/
theorem leads_deeper {P : Books σ α → Prop} {x : Action σ α Unit} (h : a.Leads P x) :
    a.Leads P (Action.deeper x) := by
  refine leads_single_iff.mpr fun s hs => ?_
  rw [Action.wraps_deeper x s]
  exact (leads_single_iff.mp h { s with depth := s.depth + 1 } hs).mapState (fun _ => id)
    fun _ _ => id

theorem leads_underView {P : Books σ α → Prop} {x : Action σ α Unit} (view : View)
    (h : a.Leads P x) : a.Leads P (Action.underView view x) := by
  refine leads_single_iff.mpr fun s hs => ?_
  rw [Action.wraps_underView view x s]
  exact (leads_single_iff.mp h { s with view := view } hs).mapState (fun _ => id) fun _ _ => id

theorem leads_inFrame {P : Books σ α → Prop} {x : Action σ α Unit} (h : a.Leads P x) :
    a.Leads P (Action.inFrame x) := by
  refine leads_single_iff.mpr fun s hs => ?_
  have ends := leads_single_iff.mp h { s with stack := s.stack.pushFrame } hs
  simp only [Action.inFrame]
  generalize x.run { s with stack := s.stack.pushFrame } = o at ends ⊢
  -- A stack that cannot be cut back makes no difference to the books.
  cases o <;> simp only <;> split <;> exact ends

theorem Rules.pathRule (h : a.Rules c) {i j : Nat} {rule : Rule α} (at_ : g.RuleAt i j rule)
    (suits : rule.body.yield.Suits true) (x : Instance α) :
    a.Leads (a.Noted rule) (c.pathRule rule (c.enterBody rule.body) x) := by
  refine leads_single_iff.mpr ?_
  rintro s ⟨b, admitted, books⟩
  have fetched := Context.keptPath_books h.reuse h.keeps h.env suits x.params s
  have noted := a.taken i j rule b at_ admitted
  simp only [Context.pathRule, run_bind]
  generalize (c.keptPath rule (c.enterBody rule.body) x.params).run s = o at fetched ⊢
  cases o with
  | failed e t =>
    show a.kept t.books
    rw [fetched.1, books]
    exact noted
  | ok p t =>
    rw [books] at fetched
    simp only [Path.Compiled.identity]
    cases uid : p.uid with
    | none =>
      show a.kept t.books
      rw [fetched.of_uid_none uid]
      exact noted
    | some uid' =>
      simp only [Context.drawCommands_eq, run_update, h.renderer]
      exact a.path i j rule x p uid' b t.books at_ admitted fetched uid

section Loaded

variable {d : Draft α} (drafted : d.Drafted) (built : d.build = .ok g)

include drafted built

theorem Rules.expandNoting (h : a.Rules c) (grammar : c.grammar = g) (x : Instance α) :
    a.open_.Stays (c.expandNoting note x) := by
  unfold Context.expandNoting
  split
  · exact Course.stays_fail trivial
  case h_2 index _ =>
    split
    · exact Course.stays_fail trivial
    case h_2 shape found =>
      rw [grammar] at found
      refine consult h.renderer x (leads_deeper ?_)
      refine Attempt.Leads.bind ((a.course_pliant a.settled).gives_selectRule shape) ?_
      rintro rule _ ⟨rfl, j, hj⟩
      obtain ⟨b, of⟩ := Draft.build_rule drafted built found hj
      have suits : rule.body.yield.Suits shape.isPath := by
        rw [of.body, Body.yield_resolve]
        exact of.suits built
      refine Attempt.Leads.andThen (Q := Twice fun s => a.Noted rule s.books)
        (Attempt.Leads.update ?_) fun _ => ?_
      · rintro s _ ⟨rfl, admitted⟩
        exact ⟨rfl, s.books, admitted, rfl⟩
      refine Attempt.Leads.bind Attempt.Leads.state ?_
      rintro s _ ⟨rfl, -⟩
      refine leads_underView (a := a) (P := a.Noted rule) _ ?_
      cases isPath : shape.isPath with
      | true => exact h.pathRule ⟨shape, found, hj⟩ (isPath ▸ suits) x
      | false =>
        have body := (a.course_pliant fun _ => id).enterBody (h.env a.open_) h.keeps
          (b := rule.body) (.inl h.replace) x true x.params
        refine Attempt.Leads.weaken body (.refl _) ?_ fun _ _ => id
        rintro s _ ⟨rfl, b, admitted, books⟩
        have kept := a.taken index j rule b ⟨shape, found, hj⟩ admitted
        exact ⟨rfl, show a.kept s.books from books ▸ kept⟩

end Loaded

end Account

namespace Setting

variable {d : Draft α} {g : Grammar α} (drafted : d.Drafted) (built : d.build = .ok g)
  {r : Renderer σ α} {note : Rule α → σ → σ} (a : Account g r note) (options : Options)

include drafted built

theorem expandNoting_accounts (fuel : Nat) (i : Instance α) :
    a.open_.Stays ((standard g r options).expandNoting note fuel i) := by
  induction fuel generalizing i with
  | zero => exact Course.stays_fail trivial
  | succ fuel ih =>
    have rules : a.Rules ((standard g r options).contextAt fuel
        ((standard g r options).expandNoting note fuel)) :=
      { renderer := rfl
        reuse := rfl
        keeps := ⟨Session.environmentAt_keeps fuel,
          expandNoting_keeps Session.environmentAt_keeps note fuel⟩
        env := fun k => k.environmentAt fuel
        expand := ih }
    exact rules.expandNoting drafted built rfl i

/-- The books are kept all along a run, however it ends. -/
theorem runNoting_accounts (fuel start : Nat) :
    a.open_.Stays ((standard g r options).runNoting note fuel start) := by
  unfold runNoting
  split
  · exact Course.stays_fail trivial
  case h_2 shape _ =>
    split
    · exact Course.stays_fail trivial
    · refine Leads.andThen (Course.stays_update (k := a.open_) fun _ => rfl) fun _ => ?_
      refine Account.leads_inFrame (a := a) (P := a.kept) ?_
      refine Leads.andThen (Course.stays_runAll (k := a.open_) fun st hst => ?_) fun _ => ?_
      · -- The globals are defines.
        obtain ⟨head, f, rfl⟩ := drafted.globals built st hst
        rw [Context.run]
        exact (a.open_.environmentAt fuel).define head f
      · refine Course.stays_of_state fun s _ => ?_
        split
        · exact Course.stays_fail trivial
        · exact Leads.andThen (Course.stays_update (k := a.open_) fun _ => rfl) fun _ =>
            expandNoting_accounts drafted built a options fuel _

theorem runNoting_kept (fuel start : Nat) {s : Session σ α} (kept : a.kept s.books) :
    a.kept (((standard g r options).runNoting note fuel start).run s).state.books := by
  have ends := Course.stays_iff.mp (runNoting_accounts drafted built a options fuel start) s kept
  generalize ((standard g r options).runNoting note fuel start).run s = o at ends ⊢
  cases o with
  | ok b t => exact ends
  | failed e t => exact ends

end Setting

end ShapeGrammar
