import ShapeGrammar.Scope

/-!
# Grammars

A draft collects shapes, rules and global defines as a front end produces
them. Building it checks everything that can be checked before a run: that
references resolve, that paths and shapes are kept apart, that names are
unique in each body and defined where they are used. Weights are normalized
on the way, and what may be kept between expansions is marked.
-/

set_option autoImplicit false

namespace ShapeGrammar

structure Grammar (α : Type) where
  shapes : List (Shape α)
  globals : Body α
  warnings : List Diagnostic

def Grammar.shapeIndex? {α : Type} (g : Grammar α) (name : String) : Option Nat :=
  g.shapes.findIdx? fun s => s.name == name

variable {α : Type}

mutual

def Body.flatten : Body α → List (Statement α)
  | ⟨statements, _, _⟩ => Statement.flattenAll statements

def Statement.inner : Statement α → List (Statement α)
  | .replace _ => []
  | .loop _ _ body last => body.flatten ++ last.flatten
  | .transform _ _ body => body.flatten
  | .branch _ _ thenBody elseBody => thenBody.flatten ++ elseBody.flatten
  | .switch _ _ _ bodies default => Body.flattenAll bodies ++ default.flatten
  | .define _ _ => []
  | .op _ _ => []
  | .command _ _ => []

def Statement.flattenAll : List (Statement α) → List (Statement α)
  | [] => []
  | st :: rest => st :: (st.inner ++ Statement.flattenAll rest)

def Body.flattenAll : List (Body α) → List (Statement α)
  | [] => []
  | b :: rest => b.flatten ++ Body.flattenAll rest

end

def Head.referenceProblems (shapes : List (Shape α)) (h : Head α) : List Diagnostic :=
  match h.target with
  | .shape index =>
    match shapes[index]? with
    | none => [⟨h.span, .noSuchShape index⟩]
    | some target =>
      (if h.args.length = target.params.length then []
        else [⟨h.span, .shapeArguments target.name target.params.length h.args.length⟩]) ++
      (if target.rules.isEmpty then [⟨h.span, .shapeWithoutRules target.name⟩] else [])
  | _ => []

def Body.referenceProblems (shapes : List (Shape α)) (b : Body α) : List Diagnostic :=
  b.flatten.flatMap fun st => st.head.referenceProblems shapes

/-- A path draws by operators and commands only, any other shape by neither. -/
def Rule.kindProblems (s : Shape α) (r : Rule α) : List Diagnostic :=
  let yield := r.body.yield
  (if s.isPath && yield.replacement then [⟨r.span, .pathReplaces s.name⟩] else []) ++
  (if !s.isPath && (yield.operator || yield.command) then [⟨r.span, .pathOutside s.name⟩]
    else [])

def paramProblems (seen : List String) : List Param → List Diagnostic
  | [] => []
  | p :: rest =>
    (if seen.contains p.name then [⟨p.span, .paramTwice p.name⟩] else []) ++
      paramProblems (p.name :: seen) rest

namespace Statement

def bound : Statement α → List String
  | .define _ d => [d.name]
  | _ => []

def nameProblems (seen : List String) (st : Statement α) : List Diagnostic :=
  st.bound.flatMap fun name =>
    if seen.contains name then [⟨st.head.span, .nameTaken name⟩] else []

end Statement

mutual

def Body.nameProblems : Body α → List Diagnostic
  | ⟨statements, params, _⟩ =>
    paramProblems [] params ++
      Statement.nameProblemsAll (params.map Param.name) statements

def Statement.innerNameProblems : Statement α → List Diagnostic
  | .replace _ => []
  | .loop _ _ body last => body.nameProblems ++ last.nameProblems
  | .transform _ _ body => body.nameProblems
  | .branch _ _ thenBody elseBody => thenBody.nameProblems ++ elseBody.nameProblems
  | .switch _ _ _ bodies default => Body.nameProblemsAll bodies ++ default.nameProblems
  | .define _ _ => []
  | .op _ _ => []
  | .command _ _ => []

def Statement.nameProblemsAll (seen : List String) : List (Statement α) → List Diagnostic
  | [] => []
  | st :: rest =>
    st.nameProblems seen ++ st.innerNameProblems ++
      Statement.nameProblemsAll (st.bound ++ seen) rest

def Body.nameProblemsAll : List (Body α) → List Diagnostic
  | [] => []
  | b :: rest => b.nameProblems ++ Body.nameProblemsAll rest

end

structure Draft (α : Type) where
  shapes : List (Shape α)
  globals : Body α
  /-- Declaration errors, reported with all others when the draft is built. -/
  problems : List Diagnostic

namespace Draft

variable [Scalar α]

def empty : Draft α := ⟨[], .empty, []⟩

/-- A name declared twice keeps its first index. -/
def declareShape (d : Draft α) (name : String) (isPath : Bool) (params : List Param) :
    Draft α × Nat :=
  match d.shapes.findIdx? fun s => s.name == name with
  | some index => ({ d with problems := d.problems ++ [⟨.none, .shapeTwice name⟩] }, index)
  | none =>
    let index := d.shapes.length
    ({ d with shapes := d.shapes ++ [Shape.declare name index isPath params] }, index)

def addRule (d : Draft α) (index : Nat) (w : Weight α) (body : Body α) (span : Span) : Draft α :=
  match d.shapes[index]? with
  | none => { d with problems := d.problems ++ [⟨span, .noSuchShape index⟩] }
  | some s =>
    let rule := Rule.make index w (body.bind s.params) span
    { d with shapes := d.shapes.set index { s with rules := s.rules ++ [rule] } }

def addGlobal (d : Draft α) (define : Define α) (span : Span) : Draft α :=
  { d with globals := d.globals.push (.define ⟨.none, [], .empty, span⟩ define) }

def bodies (d : Draft α) : List (Body α) :=
  d.shapes.flatMap fun s => s.rules.map Rule.body

def globalScope (d : Draft α) : Scope := Statement.scopeAfterAll [] d.globals.statements

def referenceProblems (d : Draft α) : List Diagnostic :=
  (d.bodies ++ [d.globals]).flatMap (Body.referenceProblems d.shapes)

def kindProblems (d : Draft α) : List Diagnostic :=
  d.shapes.flatMap fun s => s.rules.flatMap (Rule.kindProblems s)

def nameProblems (d : Draft α) : List Diagnostic :=
  (d.globals :: d.bodies).flatMap Body.nameProblems

def weightProblems (d : Draft α) : List Diagnostic := d.shapes.flatMap Shape.weightProblems

def undefinedNames (d : Draft α) : List Diagnostic :=
  Statement.undefinedAll [] d.globals.statements ++
    d.bodies.flatMap (Body.undefined d.globalScope false)

def allProblems (d : Draft α) : List Diagnostic :=
  d.problems ++ d.referenceProblems ++ d.kindProblems ++ d.nameProblems ++
    d.weightProblems ++ d.undefinedNames

def resolveRule (scope : Scope) (isPath : Bool) (place : Address) (r : Rule α) : Rule α :=
  { r with
    body := r.body.resolve scope false place
    cell := if isPath && r.body.isFixed scope false then some place else none }

def resolveShape (scope : Scope) (i : Nat) (s : Shape α) : Shape α :=
  { s.weighted with
    rules := s.weighted.rules.mapIdx fun j r => resolveRule scope s.isPath [i, j] r }

/-- The grammar that the draft describes, whatever is wrong with it. -/
def resolved (d : Draft α) : Grammar α where
  shapes := d.shapes.mapIdx (resolveShape d.globalScope)
  globals := { d.globals with statements := Statement.resolveAll [] [] 0 d.globals.statements }
  warnings := d.allProblems.filter fun p => !p.code.isError

def errors (d : Draft α) : List Diagnostic := d.allProblems.filter fun p => p.code.isError

/-- Warnings do not stand in the way of a grammar. -/
def build (d : Draft α) : Except (List Diagnostic) (Grammar α) :=
  if d.errors.isEmpty then .ok d.resolved else .error d.errors

end Draft

end ShapeGrammar
