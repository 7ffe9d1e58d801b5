import ShapeGrammar.Shape

/-!
# Static scope

Before any run, each statement is read in the scope that its expansion will
see. The scope tells for every name whether its value is the same on every
evaluation anywhere, and whether it is the same on every expansion of the
enclosing rule. From this follow the names that are undefined, the defines
whose value may be kept, and the rules whose path may be kept.
-/

set_option autoImplicit false

namespace ShapeGrammar

structure Entry where
  name : String
  /-- The same value on every evaluation, anywhere. -/
  cached : Bool
  /-- The same value on every expansion of the enclosing path rule. -/
  fixed : Bool
  deriving DecidableEq, Repr

/-- The names in scope, innermost first. -/
abbrev Scope := List Entry

namespace Scope

/-- Only the innermost entry of a name counts. -/
def holds (s : Scope) (property : Entry → Bool) (name : String) : Bool :=
  (s.find? fun e => e.name == name).any property

def isCached (s : Scope) : String → Bool := s.holds Entry.cached

def isFixed (s : Scope) : String → Bool := s.holds Entry.fixed

def binds (s : Scope) (name : String) : Bool := s.any fun e => e.name == name

def bind (fixed : Bool) : List Param → Scope → Scope
  | [], s => s
  | p :: rest, s => bind fixed rest (⟨p.name, false, fixed⟩ :: s)

def undefined (s : Scope) (names : List Expr.Occurrence) : List Diagnostic :=
  names.filterMap fun (name, span) =>
    if s.binds name then none else some ⟨span, .nameUndefined name⟩

end Scope

variable {α : Type}

namespace Define

def entry (s : Scope) (d : Define α) : Entry :=
  if d.isFunction then ⟨d.name, false, false⟩
  else ⟨d.name, d.isConstantIn s.isCached, d.isConstantIn s.isFixed⟩

/-- A function is visible to its own body, so that it may recurse. -/
def bodyScope (s : Scope) (d : Define α) : Scope :=
  if d.isFunction then Scope.bind false d.params (d.entry s :: s) else s

def resolve (s : Scope) (place : Address) (d : Define α) : Define α :=
  if d.isFunction then d
  else { d with cell := if d.isConstantIn s.isCached then some place else none }

end Define

namespace Symmetry

def names : Symmetry α → List Expr.Occurrence
  | .mods b => b.names
  | _ => []

def isConstantIn (known : String → Bool) : Symmetry α → Bool
  | .mods b => b.isConstantIn known
  | _ => true

end Symmetry

def Statement.scopeAfter (s : Scope) : Statement α → Scope
  | .define _ d => d.entry s :: s
  | _ => s

def Statement.scopeAfterAll (s : Scope) : List (Statement α) → Scope
  | [] => s
  | st :: rest => scopeAfterAll (st.scopeAfter s) rest

mutual

/-- Everything the body does is the same on every expansion of its path rule. -/
def Body.isFixed (s : Scope) (paramsFixed : Bool) : Body α → Bool
  | ⟨statements, params, _⟩ => Statement.allFixed (s.bind paramsFixed params) statements

def Statement.isFixed (s : Scope) : Statement α → Bool
  | .replace h => h.mods.isConstantIn s.isFixed && h.args.all (Expr.isConstantIn s.isFixed)
  | .loop h spec body last =>
    let rangeFixed := spec.range.isConstantIn s.isFixed
    h.mods.isConstantIn s.isFixed && rangeFixed &&
      body.isFixed s rangeFixed && last.isFixed s rangeFixed
  | .transform h spec body =>
    h.mods.isConstantIn s.isFixed &&
      spec.generators.all (Symmetry.isConstantIn s.isFixed) && body.isFixed s false
  | .branch _ cond thenBody elseBody =>
    cond.isConstantIn s.isFixed && thenBody.isFixed s false && elseBody.isFixed s false
  | .switch _ selector _ bodies default =>
    selector.isConstantIn s.isFixed && Body.allFixed s bodies && default.isFixed s false
  | .define _ _ => true
  | .op _ o => o.isConstantIn s.isFixed
  | .command h c => h.mods.isConstantIn s.isFixed && c.isConstantIn s.isFixed

def Statement.allFixed (s : Scope) : List (Statement α) → Bool
  | [] => true
  | st :: rest => st.isFixed s && Statement.allFixed (st.scopeAfter s) rest

def Body.allFixed (s : Scope) : List (Body α) → Bool
  | [] => true
  | b :: rest => b.isFixed s false && Body.allFixed s rest

end

def Head.names (h : Head α) : List Expr.Occurrence := h.mods.names ++ h.args.flatMap Expr.names

mutual

def Body.undefined (s : Scope) (paramsFixed : Bool) : Body α → List Diagnostic
  | ⟨statements, params, _⟩ => Statement.undefinedAll (s.bind paramsFixed params) statements

def Statement.undefined (s : Scope) : Statement α → List Diagnostic
  | .replace h => s.undefined h.names
  | .loop h spec body last =>
    let rangeFixed := spec.range.isConstantIn s.isFixed
    s.undefined h.names ++ s.undefined spec.range.names ++
      body.undefined s rangeFixed ++ last.undefined s rangeFixed
  | .transform h spec body =>
    s.undefined h.names ++ s.undefined (spec.generators.flatMap Symmetry.names) ++
      body.undefined s false
  | .branch h cond thenBody elseBody =>
    s.undefined h.names ++ s.undefined cond.names ++
      thenBody.undefined s false ++ elseBody.undefined s false
  | .switch h selector _ bodies default =>
    s.undefined h.names ++ s.undefined selector.names ++
      Body.undefinedAll s bodies ++ default.undefined s false
  | .define h d => s.undefined h.names ++ (d.bodyScope s).undefined d.names
  | .op h o => s.undefined h.names ++ s.undefined o.names
  | .command h c => s.undefined h.names ++ s.undefined c.names

def Statement.undefinedAll (s : Scope) : List (Statement α) → List Diagnostic
  | [] => []
  | st :: rest => st.undefined s ++ Statement.undefinedAll (st.scopeAfter s) rest

def Body.undefinedAll (s : Scope) : List (Body α) → List Diagnostic
  | [] => []
  | b :: rest => b.undefined s false ++ Body.undefinedAll s rest

end

mutual

def Body.resolve (s : Scope) (paramsFixed : Bool) (place : Address) : Body α → Body α
  | ⟨statements, params, slots⟩ =>
    ⟨Statement.resolveAll (s.bind paramsFixed params) place 0 statements, params, slots⟩

def Statement.resolve (s : Scope) (place : Address) : Statement α → Statement α
  | .replace h => .replace h
  | .loop h spec body last =>
    let rangeFixed := spec.range.isConstantIn s.isFixed
    .loop h spec (body.resolve s rangeFixed (place ++ [0]))
      (last.resolve s rangeFixed (place ++ [1]))
  | .transform h spec body => .transform h spec (body.resolve s false (place ++ [0]))
  | .branch h cond thenBody elseBody =>
    .branch h cond (thenBody.resolve s false (place ++ [0]))
      (elseBody.resolve s false (place ++ [1]))
  | .switch h selector keys bodies default =>
    .switch h selector keys (Body.resolveAll s place 1 bodies)
      (default.resolve s false (place ++ [0]))
  | .define h d => .define h (d.resolve s place)
  | .op h o => .op h o
  | .command h c => .command h c

def Statement.resolveAll (s : Scope) (place : Address) (i : Nat) :
    List (Statement α) → List (Statement α)
  | [] => []
  | st :: rest =>
    st.resolve s (place ++ [i]) :: Statement.resolveAll (st.scopeAfter s) place (i + 1) rest

def Body.resolveAll (s : Scope) (place : Address) (i : Nat) : List (Body α) → List (Body α)
  | [] => []
  | b :: rest => b.resolve s false (place ++ [i]) :: Body.resolveAll s place (i + 1) rest

end

end ShapeGrammar
