import ShapeGrammar.Grammar

/-!
# Drafts as they are made

A draft starts empty and grows by declared shapes, rules and global defines.
Statements come from the functions that check and fold them. What every draft
made this way has in common is collected here: the global body holds defines
only, shapes carry their index, and the bodies of rules are counted under the
parameters of their shape.
-/

set_option autoImplicit false

namespace ShapeGrammar

variable {α : Type}

theorem Statement.resolveAll_defines (s : Scope) (place : Address) (i : Nat)
    {statements : List (Statement α)} (h : ∀ st ∈ statements, ∃ head f, st = .define head f) :
    ∀ st ∈ resolveAll s place i statements, ∃ head f, st = .define head f := by
  induction statements generalizing s i with
  | nil => simp [resolveAll]
  | cons st rest ih =>
    obtain ⟨head, f, rfl⟩ := h st (by simp)
    simp only [resolveAll, resolve, List.mem_cons, forall_eq_or_imp]
    exact ⟨⟨head, _, rfl⟩, ih _ _ fun st hst => h st (by simp [hst])⟩

variable [Scalar α]

theorem Statement.makeLoop_eq_ok {h : Head α} {var : Param} {range : Expr α} {body last : Body α}
    {st : Statement α} (made : makeLoop h var range body last = .ok st) :
    ∃ constant, LoopSpec.constantRange range = .ok constant ∧
      st = .loop h ⟨var, range, constant, (body.bind [var]).opsOnly && (last.bind [var]).opsOnly⟩
        (body.bind [var]) (last.bind [var]) := by
  unfold makeLoop at made
  split at made <;> cases made
  case h_2 constant folded => exact ⟨constant, folded, rfl⟩

/-- A statement put together by the functions that make statements. -/
inductive Statement.Made : Statement α → Prop
  | replace (h : Head α) : Made (.replace h)
  | loop {h : Head α} {var : Param} {range : Expr α} {body last : Body α} {st : Statement α}
      (hbody : ∀ s ∈ body.statements, Made s) (hlast : ∀ s ∈ last.statements, Made s)
      (made : makeLoop h var range body last = .ok st) : Made st
  | transform {h : Head α} {generators : List (Symmetry α)} {clone : Bool} {body : Body α}
      (hbody : ∀ s ∈ body.statements, Made s) : Made (makeTransform h generators clone body)
  | branch {h : Head α} {cond : Expr α} {thenBody elseBody : Body α}
      (hthen : ∀ s ∈ thenBody.statements, Made s) (helse : ∀ s ∈ elseBody.statements, Made s) :
      Made (.branch h cond thenBody elseBody)
  | switch {h : Head α} {selector : Expr α} {s : Switch (Body α)}
      (hbodies : ∀ b ∈ s.bodies, ∀ st ∈ b.statements, Made st)
      (hdefault : ∀ st ∈ s.default.statements, Made st) : Made (makeSwitch h selector s)
  | define (h : Head α) (d : Define α) : Made (.define h d)
  | op {h : Head α} {operator : Path.Operator} {args : List (Path.ArgName × Expr α)}
      {flags : Path.Flags} {o : Path.Op α} (made : Path.Op.make operator args flags = .ok o) :
      Made (.op h o)
  | command {h : Head α} {kind : Path.CommandKind} {flags : Path.Flags}
      {width miter : Option (Expr α)} {c : Path.CommandSpec α}
      (made : Path.CommandSpec.make kind flags width miter = .ok c) : Made (.command h c)

namespace Statement.Made

theorem loop_inv {h : Head α} {spec : LoopSpec α} {body last : Body α}
    (made : (Statement.loop h spec body last).Made) :
    LoopSpec.constantRange spec.range = .ok spec.constant ∧
      (∃ var, body = Body.make [var] body.statements ∧ last = Body.make [var] last.statements) ∧
      (∀ st ∈ body.statements, st.Made) ∧ ∀ st ∈ last.statements, st.Made := by
  generalize same : Statement.loop h spec body last = st at made
  cases made with
  | loop hbody hlast made =>
    obtain ⟨constant, folded, rfl⟩ := makeLoop_eq_ok made
    cases same
    exact ⟨folded, ⟨_, rfl, rfl⟩, hbody, hlast⟩
  | _ => cases same

theorem transform_inv {h : Head α} {spec : TransformSpec α} {body : Body α}
    (made : (Statement.transform h spec body).Made) : ∀ st ∈ body.statements, st.Made := by
  generalize same : Statement.transform h spec body = st at made
  cases made with
  | transform hbody =>
    cases same
    exact hbody
  | loop _ _ made =>
    obtain ⟨_, _, rfl⟩ := makeLoop_eq_ok made
    cases same
  | _ => cases same

theorem branch_inv {h : Head α} {cond : Expr α} {thenBody elseBody : Body α}
    (made : (Statement.branch h cond thenBody elseBody).Made) :
    (∀ st ∈ thenBody.statements, st.Made) ∧ ∀ st ∈ elseBody.statements, st.Made := by
  generalize same : Statement.branch h cond thenBody elseBody = st at made
  cases made with
  | branch hthen helse =>
    cases same
    exact ⟨hthen, helse⟩
  | loop _ _ made =>
    obtain ⟨_, _, rfl⟩ := makeLoop_eq_ok made
    cases same
  | _ => cases same

theorem switch_inv {h : Head α} {selector : Expr α} {keys : List (Int × Nat)}
    {bodies : List (Body α)} {default : Body α}
    (made : (Statement.switch h selector keys bodies default).Made) :
    (∀ b ∈ bodies, ∀ st ∈ b.statements, st.Made) ∧ ∀ st ∈ default.statements, st.Made := by
  generalize same : Statement.switch h selector keys bodies default = st at made
  cases made with
  | switch hbodies hdefault =>
    cases same
    exact ⟨hbodies, hdefault⟩
  | loop _ _ made =>
    obtain ⟨_, _, rfl⟩ := makeLoop_eq_ok made
    cases same
  | _ => cases same

theorem op_inv {h : Head α} {o : Path.Op α} (made : (Statement.op h o).Made) :
    Path.Op.constantArgs o.args = .ok o.constant := by
  generalize same : Statement.op h o = st at made
  cases made with
  | @op _ operator args flags _ made =>
    cases same
    simp only [Path.Op.make, bind, Except.bind] at made
    repeat' split at made <;> try cases made
    assumption
  | loop _ _ made =>
    obtain ⟨_, _, rfl⟩ := makeLoop_eq_ok made
    cases same
  | _ => cases same

end Statement.Made

namespace Draft

/-- A draft that a front end can arrive at. -/
inductive Drafted : Draft α → Prop
  | empty : Drafted .empty
  | declareShape {d : Draft α} (h : Drafted d) (name : String) (isPath : Bool)
      (params : List Param) : Drafted (d.declareShape name isPath params).1
  | addRule {d : Draft α} (h : Drafted d) (index : Nat) (w : Weight α) {body : Body α}
      (made : ∀ st ∈ body.statements, st.Made) (span : Span) :
      Drafted (d.addRule index w body span)
  | addGlobal {d : Draft α} (h : Drafted d) (f : Define α) (span : Span) :
      Drafted (d.addGlobal f span)

structure Fits (s : Shape α) (r : Rule α) : Prop where
  shape : r.shape = s.index
  params : r.body.params = s.params
  slots : r.body.slots = Body.countSlots r.body.params r.body.statements
  made : ∀ st ∈ r.body.statements, st.Made

structure Regular (d : Draft α) : Prop where
  globals : ∀ st ∈ d.globals.statements, ∃ span f, st = .define ⟨.none, [], .empty, span⟩ f
  globalSlots : d.globals = Body.make [] d.globals.statements
  index : ∀ (i : Nat) (s : Shape α), d.shapes[i]? = some s → s.index = i
  rules : ∀ s ∈ d.shapes, ∀ r ∈ s.rules, Fits s r

theorem regular_empty : Regular (.empty : Draft α) where
  globals := by simp [Draft.empty, Body.empty, Body.ofStatements, Body.make]
  globalSlots := rfl
  index := by simp [Draft.empty]
  rules := by simp [Draft.empty]

theorem Regular.declareShape {d : Draft α} (h : Regular d) (name : String) (isPath : Bool)
    (params : List Param) : Regular (d.declareShape name isPath params).1 := by
  unfold Draft.declareShape
  split
  · exact ⟨h.globals, h.globalSlots, h.index, h.rules⟩
  · refine ⟨h.globals, h.globalSlots, ?_, ?_⟩
    · intro i s hs
      rcases Nat.lt_trichotomy i d.shapes.length with hi | hi | hi
      · rw [List.getElem?_append_left hi] at hs
        exact h.index i s hs
      · subst hi
        simp only [List.getElem?_concat_length, Option.some.injEq] at hs
        rw [← hs]
        rfl
      · rw [List.getElem?_eq_none (by simp; omega)] at hs
        cases hs
    · intro s hs r hr
      rcases List.mem_append.mp hs with hs | hs
      · exact h.rules s hs r hr
      · rw [List.mem_singleton.mp hs] at hr
        cases hr

theorem Regular.addRule {d : Draft α} (h : Regular d) (index : Nat) (w : Weight α) {body : Body α}
    (made : ∀ st ∈ body.statements, st.Made) (span : Span) :
    Regular (d.addRule index w body span) := by
  unfold Draft.addRule
  split
  · exact ⟨h.globals, h.globalSlots, h.index, h.rules⟩
  case h_2 shape hshape =>
    have hindex := h.index index shape hshape
    have hrules := h.rules shape (List.mem_of_getElem? hshape)
    refine ⟨h.globals, h.globalSlots, ?_, ?_⟩
    · intro i s hs
      rw [List.getElem?_set] at hs
      split at hs
      case isTrue same =>
        split at hs <;> cases hs
        exact hindex.trans same
      case isFalse => exact h.index i s hs
    · intro s hs r hr
      rcases List.mem_or_eq_of_mem_set hs with hs | rfl
      · exact h.rules s hs r hr
      · rcases List.mem_append.mp hr with hr | hr
        · have fits := hrules r hr
          exact ⟨fits.shape, fits.params, fits.slots, fits.made⟩
        · rw [List.mem_singleton.mp hr]
          have same : ∀ (w : Weight α) (b : Body α), (Rule.make index w b span).shape = index ∧
              (Rule.make index w b span).body = b := by
            intro w b
            cases w <;> exact ⟨rfl, rfl⟩
          obtain ⟨hshape, hbody⟩ := same w (body.bind shape.params)
          refine ⟨hshape.trans hindex.symm, ?_, ?_, ?_⟩
          · rw [hbody]
            rfl
          · rw [hbody]
            rfl
          · rw [hbody]
            exact made

theorem Regular.addGlobal {d : Draft α} (h : Regular d) (f : Define α) (span : Span) :
    Regular (d.addGlobal f span) where
  globals := by
    intro st hst
    rcases List.mem_append.mp hst with hst | hst
    · exact h.globals st hst
    · exact ⟨span, f, List.mem_singleton.mp hst⟩
  globalSlots := by
    have params : d.globals.params = [] := by
      rw [h.globalSlots]
      rfl
    simp [Draft.addGlobal, Body.push, params, Body.make]
  index := h.index
  rules := h.rules

theorem Drafted.regular {d : Draft α} (h : Drafted d) : Regular d := by
  induction h with
  | empty => exact regular_empty
  | declareShape _ name isPath params ih => exact ih.declareShape name isPath params
  | addRule _ index w made span ih => exact ih.addRule index w made span
  | addGlobal _ f span ih => exact ih.addGlobal f span

theorem build_eq_ok {d : Draft α} {g : Grammar α} :
    d.build = .ok g ↔ d.errors = [] ∧ d.resolved = g := by
  unfold build
  split
  case isTrue h => simp [List.isEmpty_iff.mp h]
  case isFalse h =>
    have errors : d.errors ≠ [] := fun none => h (List.isEmpty_iff.mpr none)
    simp [errors]

end Draft

/-- A grammar's globals are defines. -/
theorem Draft.Drafted.globals {d : Draft α} {g : Grammar α} (hd : d.Drafted)
    (hg : d.build = .ok g) : ∀ st ∈ g.globals.statements, ∃ head f, st = .define head f := by
  obtain ⟨-, rfl⟩ := Draft.build_eq_ok.mp hg
  refine Statement.resolveAll_defines [] [] 0 fun st hst => ?_
  obtain ⟨span, f, rfl⟩ := hd.regular.globals st hst
  exact ⟨_, f, rfl⟩

end ShapeGrammar
