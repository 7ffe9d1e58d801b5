import Mathlib.Algebra.Order.Field.Rat
import ShapeGrammar.Expansion
import ShapeGrammar.Recorder
import ShapeGrammar.Proofs.Drafting

/-!
# A grammar worked out

Over the rationals a grammar can be loaded and run by calculation alone. The
sample has a path that is kept, with a loop and a constant of its own, and a
shape that draws it twice, in a place that is left to chance.
-/

set_option autoImplicit false

namespace ShapeGrammar

/-- Exact arithmetic. The functions that lead out of the rationals are cut short:
one step of Newton's method from one, or the first terms of a series. -/
instance Rational.scalar : Scalar Rat where
  zero := 0
  one := 1
  beq a b := decide (a = b)
  decLt := inferInstance
  decLe := inferInstance
  isFinite _ := true
  abs x := if x < 0 then -x else x
  sqrt x := (x + 1) / 2
  floor x := x.floor
  ceil x := x.ceil
  exp x := 1 + x + x * x / 2
  log x := x - 1
  pow x y := x ^ y.floor.toNat
  pi := 355 / 113
  sin x := x - x * x * x / 6
  cos x := 1 - x * x / 2
  tan x := x + x * x * x / 3
  atan x := x - x * x * x / 3
  atan2 y x := y / x
  truncMod a b := a - b * (a / b).num.tdiv (a / b).den
  floorNat x := min x.floor.toNat (2 ^ 64 - 1)
  floorInt x := max (-2 ^ 63) (min x.floor (2 ^ 63 - 1))
  text x := toString x
  textOnePlace x := toString ((x * 10).floor / 10 : Rat)

/-- Whether an attempt succeeds is found out by calculation. -/
theorem Outcome.eq_ok_state {ε ω : Type} {o : Outcome ε ω Unit}
    (h : (match o with
      | .ok _ _ => true
      | .failed _ _ => false) = true) : o = .ok () o.state := by
  cases o with
  | ok b t => rfl
  | failed e t => cases h

namespace Sample

def head (target : Target) : Head Rat := ⟨target, [], .empty, .none⟩

def number (x : Rat) : Expr Rat := .number x .none

def var (name : String) : Expr Rat := .var name .none

def chance : Expr Rat := .call "rand" [] .none

def constant (name : String) (e : Expr Rat) : Define Rat :=
  ⟨name, .expr e, .number, 1, [], false, none⟩

/-! ### A path that is kept -/

def counter : Param := ⟨"i", .number, 1, .none⟩

def corner : Path.Op Rat := ⟨.moveTo, [], .empty, false, some .zero⟩

def edge : Path.Op Rat := ⟨.lineTo, [(.x, var "i"), (.y, var "tip")], .empty, false, none⟩

def edges : Statement Rat :=
  .loop (head .none) ⟨counter, number 2, some ⟨0, 2 - 1, 1⟩, true⟩
    (.make [counter] [.op (head .none) edge]) (.make [counter] [])

def wedge : Body Rat :=
  .ofStatements [.define (head .none) (constant "tip" (.binary (var "side") .add (number 1) .none)),
    .op (head .none) corner, edges, .command (head .none) ⟨.fill, .empty, none, none⟩]

theorem edges_made : edges.Made := by
  have made : Path.Op.make .lineTo edge.args .empty = .ok edge := rfl
  have body : ∀ st ∈ (Body.ofStatements [Statement.op (head .none) edge]).statements, st.Made := by
    rintro st (_ | ⟨_, ⟨⟩⟩)
    exact .op made
  have looped : Statement.makeLoop (head .none) counter (number 2)
      (.ofStatements [.op (head .none) edge]) .empty = .ok edges := rfl
  refine .loop body ?_ looped
  rintro st ⟨⟩

theorem wedge_made : ∀ st ∈ wedge.statements, st.Made := by
  have opened : Path.Op.make .moveTo [] .empty = .ok corner := rfl
  have filled : Path.CommandSpec.make .fill .empty (none : Option (Expr Rat)) none =
    .ok ⟨.fill, .empty, none, none⟩ := rfl
  rintro st (_ | ⟨_, _ | ⟨_, _ | ⟨_, _ | ⟨_, ⟨⟩⟩⟩⟩⟩)
  · exact .define _ _
  · exact .op opened
  · exact edges_made
  · exact .command filled

/-! ### A shape that draws it -/

def coin : Statement Rat :=
  .branch (head .none) (.binary chance .lt (number (1 / 2)) .none)
    (.ofStatements [.replace (head (.primitive .circle))])
    (.ofStatements [.replace (head (.primitive .square))])

def scatter : Body Rat :=
  .ofStatements [coin, .replace ⟨.shape 0, [], ⟨[⟨.x, [chance], .none⟩], false⟩, .none⟩,
    .replace (head (.shape 0))]

theorem scatter_made : ∀ st ∈ scatter.statements, st.Made := by
  have drawn : ∀ p : Primitive,
      ∀ st ∈ (Body.ofStatements [Statement.replace (head (.primitive p))]).statements, st.Made := by
    rintro p st (_ | ⟨_, ⟨⟩⟩)
    exact .replace _
  rintro st (_ | ⟨_, _ | ⟨_, _ | ⟨_, ⟨⟩⟩⟩⟩)
  · exact .branch (drawn .circle) (drawn .square)
  · exact .replace _
  · exact .replace _

/-! ### The grammar -/

def draft : Draft Rat :=
  ((((Draft.empty.declareShape "wedge" true []).1.declareShape "scatter" false []).1.addGlobal
    (constant "side" (number 2)) .none).addRule 0 .unstated wedge .none).addRule 1 .unstated
    scatter .none

theorem draft_drafted : draft.Drafted := by
  have none : (Draft.empty : Draft Rat).Drafted := .empty
  have declared := (none.declareShape "wedge" true []).declareShape "scatter" false []
  exact ((declared.addGlobal _ .none).addRule 0 .unstated wedge_made .none).addRule 1 .unstated
    scatter_made .none

def grammar : Grammar Rat := draft.resolved

theorem draft_build : draft.build = .ok grammar := by
  have errors : draft.errors = [] := by decide +kernel
  exact Draft.build_eq_ok.mpr ⟨errors, rfl⟩

def renderer : Renderer (Recorder Rat × Array (Call Rat)) Rat :=
  (Recorder.renderer .standard).traced

def options : Options := ⟨7, none⟩

def session (store : Store Rat) : Session (Recorder Rat × Array (Call Rat)) Rat :=
  .begin options.seed store (.empty, #[])

def first : Outcome Stop (Session (Recorder Rat × Array (Call Rat)) Rat) Unit :=
  ((Setting.standard grammar renderer options).run 9 1).run (session .empty)

theorem first_ok : ∃ t, first = .ok () t :=
  ⟨_, Outcome.eq_ok_state (by decide +kernel)⟩

/-! ### A shape within itself -/

def half : Define Rat :=
  ⟨"half", .expr (.binary (var "x") .mul (number (1 / 2)) .none), .number, 1,
    [⟨"x", .number, 1, .none⟩], true, none⟩

def drift : Define Rat := constant "drift" (.call "half" [chance] .none)

/-- Every step is put where a define leads, through another define, to a function
that is called once more on the result. -/
def trail : Body Rat :=
  .ofStatements [
    .define (head .none) (constant "step" (.binary (var "drift") .add (number 1) .none)),
    .replace ⟨.primitive .circle, [], ⟨[⟨.x, [.call "half" [var "step"] .none], .none⟩], false⟩,
      .none⟩,
    .replace (head (.shape 0))]

/-- Only the renderer puts an end to it. -/
def endless : Draft Rat :=
  (((Draft.empty.declareShape "trail" false []).1.addGlobal half .none).addGlobal drift
    .none).addRule 0 .unstated trail .none

theorem endless_drafted : endless.Drafted := by
  have none : (Draft.empty : Draft Rat).Drafted := .empty
  have made : ∀ st ∈ trail.statements, st.Made := by
    rintro st (_ | ⟨_, _ | ⟨_, _ | ⟨_, ⟨⟩⟩⟩⟩)
    · exact .define _ _
    · exact .replace _
    · exact .replace _
  exact (((none.declareShape "trail" false []).addGlobal _ .none).addGlobal _ .none).addRule 0
    .unstated made .none

theorem endless_build : endless.build = .ok endless.resolved := by
  have errors : endless.errors = [] := by decide +kernel
  exact Draft.build_eq_ok.mpr ⟨errors, rfl⟩

end Sample

end ShapeGrammar
