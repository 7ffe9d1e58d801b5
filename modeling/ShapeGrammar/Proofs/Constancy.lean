import ShapeGrammar.Proofs.Known
import ShapeGrammar.Proofs.Ranks

/-!
# What a constant depends on

An expression that is constant in some names asks its environment for these names and
for functions with the names of pure builtins, and never for a draw. Environments that
tell the same of the names, and have no such function, come to the same value or the
same failure, and stay as they are. With no names at all, what they come to is what the
expression is folded to before any run.
-/

set_option autoImplicit false

namespace ShapeGrammar

open Attempt

variable {ε ε' ω ω' α β : Type}

namespace Outcome

def ofResult (s : ω) : Except ε β → Outcome ε ω β
  | .ok b => .ok b s
  | .error e => .failed e s

theorem ofResult_inj {s : ω} {result result' : Except ε β} :
    ofResult s result = ofResult s result' ↔ result = result' := by
  cases result <;> cases result' <;> simp [ofResult]

end Outcome

namespace Env

def Request.IsConstantIn (bound : List String) : Request α → Prop
  | .lookup name _ => name ∈ bound
  | .call name _ _ => Builtin.namesPure name = true
  | .draw _ => False

/-- Two environments, each in a state of its own, tell the same of the names, have no
function with the name of a pure builtin, and do not move when asked. The failures of
the first are told over to the second. -/
structure Agree (told : ε → ε') (bound : List String) (env : Env ε ω α) (s : ω)
    (env' : Env ε' ω' α) (s' : ω') : Prop where
  lookup : ∀ name ∈ bound, ∀ span, ∃ result : Except ε (Value α),
    (env.lookup name span).run s = .ofResult s result ∧
    (env'.lookup name span).run s' = .ofResult s' (result.mapError told)
  call : ∀ name, Builtin.namesPure name = true → ∀ args span,
    (env.call name args span).run s = .ok none s ∧
    (env'.call name args span).run s' = .ok none s'
  raise : ∀ fault, env'.raise fault = told (env.raise fault)

/-! ### On record -/

/-- The states have not moved, and the same has been asked for, all of it constant. -/
structure Recorded (bound : List String) (s : ω) (s' : ω') (x : ω × List (Request α))
    (x' : ω' × List (Request α)) : Prop where
  left : x.1 = s
  right : x'.1 = s'
  requests : x.2 = x'.2
  constant : ∀ request ∈ x.2, request.IsConstantIn bound

def recordedParting (told : ε → ε') (bound : List String) (s : ω) (s' : ω') :
    Parting ε ε' (ω × List (Request α)) (ω' × List (Request α)) where
  together e e' x x' := e' = told e ∧ Recorded bound s s' x x'
  alone _ := False

variable {told : ε → ε'} {bound : List String} {env : Env ε ω α} {s : ω} {env' : Env ε' ω' α}
  {s' : ω'}

theorem Recorded.noting {x : Attempt ε ω β} {y : Attempt ε' ω' β} (result : Except ε β)
    (left : x.run s = .ofResult s result) (right : y.run s' = .ofResult s' (result.mapError told))
    {request : Request α} (constant : request.IsConstantIn bound) :
    Attempt.InStep (recordedParting told bound s s') (Recorded bound s s') Eq
      (x.noting request) (y.noting request) := by
  rintro ⟨_, asked⟩ ⟨_, _⟩ ⟨rfl, rfl, rfl, all⟩
  have further : ∀ r ∈ asked ++ [request], r.IsConstantIn bound := by
    intro r mem
    rcases List.mem_append.mp mem with mem | mem
    · exact all r mem
    · exact List.mem_singleton.mp mem ▸ constant
  change Meets _ _ _ ((x.run _).mapState _) ((y.run _).mapState _)
  rw [left, right]
  cases result with
  | ok b => exact .ok rfl ⟨rfl, rfl, rfl, further⟩
  | error e => exact .together ⟨rfl, rfl, rfl, rfl, further⟩

theorem Agree.recording (h : Agree told bound env s env' s') :
    Env.InStep (recordedParting told bound s s') (Recorded bound s s') False (bound.contains ·)
      env.recording env'.recording where
  lookup name span known := by
    have mem : name ∈ bound := by simpa using known
    obtain ⟨result, left, right⟩ := h.lookup name mem span
    exact Recorded.noting result left right mem
  call name args span only := by
    have pure : Builtin.namesPure name = true := only.resolve_left id
    obtain ⟨left, right⟩ := h.call name pure args span
    exact Recorded.noting (.ok none) left right pure
  draw impossible := impossible.elim
  raise fault _ _ recorded := ⟨h.raise fault, recorded⟩

/-- Where nothing is known but that builtins are themselves, an environment agrees with
the one that has no names and no draws. -/
theorem agree_constant
    (call : ∀ name, Builtin.namesPure name = true → ∀ args span,
      (env.call name args span).run s = .ok none s) :
    Agree env.raise [] (constant : Env EvalFault Unit α) () env s where
  lookup := nofun
  call name pure args span := ⟨rfl, call name pure args span⟩
  raise _ := rfl

variable [Scalar α] {e : Expr α}

theorem run_of_recorded {requests : List (Request α)} {result : Except ε (Value α)}
    (h : (env.recording.eval e).run (s, []) = .ofResult (s, requests) result) :
    (env.eval e).run s = .ofResult s result := by
  obtain ⟨requests', same⟩ := exists_requests_of_meets
    (env.recording_answers.eval e (fun _ _ => trivial) (s, []) s rfl)
  rw [same] at h
  generalize (env.eval e).run s = o at h ⊢
  cases o <;> cases result <;> simp_all [Outcome.mapState, Outcome.ofResult]

/-- A constant comes to one thing in both environments and leaves them as they are. -/
theorem Agree.eval (h : Agree told bound env s env' s')
    (constant : e.isConstantIn (bound.contains ·) = true) :
    ∃ (result : Except ε (Value α)) (requests : List (Request α)),
      (env.recording.eval e).run (s, []) = .ofResult (s, requests) result ∧
      (env'.recording.eval e).run (s', []) = .ofResult (s', requests) (result.mapError told) ∧
      ∀ request ∈ requests, request.IsConstantIn bound := by
  have ends := h.recording.eval e (.inr constant) (s, []) (s', []) ⟨rfl, rfl, rfl, nofun⟩
  generalize (env.recording.eval e).run (s, []) = o at ends ⊢
  generalize (env'.recording.eval e).run (s', []) = o' at ends ⊢
  cases ends with
  | @ok v _ x x' value state =>
    obtain ⟨_, requests⟩ := x
    obtain ⟨_, _⟩ := x'
    obtain ⟨rfl, rfl, rfl, all⟩ := state
    cases value
    exact ⟨.ok v, requests, rfl, rfl, all⟩
  | @together e _ x x' parted =>
    obtain ⟨_, requests⟩ := x
    obtain ⟨_, _⟩ := x'
    obtain ⟨rfl, rfl, rfl, rfl, all⟩ := parted
    exact ⟨.error e, requests, rfl, rfl, all⟩
  | alone quits => exact quits.elim

/-! ### Folding -/

theorem constantValue_of_run {result : Except EvalFault (Value α)}
    (h : ((constant : Env EvalFault Unit α).eval e).run () = .ofResult () result) :
    e.constantValue = result := by
  rw [Expr.constantValue, h]
  cases result <;> rfl

/-- A constant expression depends on nothing but its names. In environments that tell
the same of them it comes to one result, and makes the same requests, none of which is
a draw or goes beyond the names and the builtins. Neither environment moves. With no
names the result is the one that the expression is folded to. -/
theorem eval_told_by_names {env : Env ε ω α} {env' : Env ε ω' α}
    (agree : Agree id bound env s env' s') (constant : e.isConstantIn (bound.contains ·) = true) :
    ∃ (result : Except ε (Value α)) (requests : List (Request α)),
      (env.eval e).run s = .ofResult s result ∧
      (env'.eval e).run s' = .ofResult s' result ∧
      (env.recording.eval e).run (s, []) = .ofResult (s, requests) result ∧
      (env'.recording.eval e).run (s', []) = .ofResult (s', requests) result ∧
      (∀ request ∈ requests, request.IsConstantIn bound) ∧
      (bound = [] → result = e.constantValue.mapError env.raise) := by
  obtain ⟨result, requests, left, right, all⟩ := agree.eval constant
  have same : result.mapError id = result := by cases result <;> rfl
  rw [same] at right
  refine ⟨result, requests, run_of_recorded left, run_of_recorded right, left, right, all, ?_⟩
  rintro rfl
  -- The same run, beside the environment that has no names: both come to one result.
  have nothing := agree_constant fun name pure args span => (agree.call name pure args span).1
  obtain ⟨folded, _, before, now, -⟩ := nothing.eval constant
  rw [constantValue_of_run (run_of_recorded before)]
  have there := run_of_recorded now
  rw [run_of_recorded left, Outcome.ofResult_inj] at there
  exact there

end Env

/-- Sessions in which the names are known to have the same values. -/
theorem Session.agree {σ σ' : Type} [Scalar α] {s : Session σ α} {s' : Session σ' α}
    {k k' : Known α} (h : k.Matches (s.stack.visible s.view))
    (h' : k'.Matches (s'.stack.visible s'.view)) {bound : List String}
    (same : ∀ name ∈ bound, ∃ v, k.value? name = some v ∧ k'.value? name = some v)
    (body : Define α → Span → Action σ α (Value α))
    (body' : Define α → Span → Action σ' α (Value α)) :
    Env.Agree id bound (Session.environment body) s (Session.environment body') s' where
  lookup name mem span := by
    obtain ⟨v, known, known'⟩ := same name mem
    obtain ⟨i, found⟩ := lookup_of_matches h known
    obtain ⟨i', found'⟩ := lookup_of_matches h' known'
    refine ⟨.ok v, ?_, ?_⟩
    · simp only [Session.environment, run_bind, run_state, found]
      rfl
    · simp only [Session.environment, run_bind, run_state, found']
      rfl
  call name pure args span :=
    ⟨call_unspoilt (unspoilt_of_matches h) body pure args span,
      call_unspoilt (unspoilt_of_matches h') body' pure args span⟩
  raise _ := rfl

namespace Sample

def side : Slot Rat := ⟨"side", .value (.number 2)⟩

def noise : Slot Rat := ⟨"noise", .deferred (constant "noise" chance)⟩

def narrow : Session Unit Rat := { Session.begin 7 .empty () with stack := ⟨#[side], #[], 1⟩ }

def wide : Session Nat Rat := { Session.begin 8 .empty 0 with stack := ⟨#[side, noise], #[], 2⟩ }

def share : Expr Rat := .binary (.call "max" [var "side", number 1] .none) .div (var "side") .none

theorem side_bears : Slot.Bears ("side", some (.number 2)) side where
  name := rfl
  value := by
    rintro _ ⟨⟩
    rfl
  plain := nofun

theorem noise_bears : Slot.Bears ("noise", none) noise where
  name := rfl
  value := by rintro _ ⟨⟩
  plain := nofun

theorem narrow_sees :
    Known.Matches [("side", some (.number 2))] (narrow.stack.visible narrow.view) := by
  have slots : narrow.stack.visible narrow.view = [side] := rfl
  rw [slots]
  exact .cons side_bears .nil

theorem wide_sees :
    Known.Matches [("noise", none), ("side", some (.number 2))]
      (wide.stack.visible wide.view) := by
  have slots : wide.stack.visible wide.view = [noise, side] := rfl
  rw [slots]
  exact .cons noise_bears (.cons side_bears .nil)

theorem narrow_agrees : Env.Agree id ["side"] (Session.environmentAt 0) narrow
    (Session.environmentAt 0) wide := by
  refine Session.agree narrow_sees wide_sees ?_ _ _
  intro name mem
  obtain rfl := List.mem_singleton.mp mem
  exact ⟨.number 2, rfl, rfl⟩

end Sample

theorem Env.eval_told_by_names_share :
    Env.Agree id ["side"] (Session.environmentAt 0) Sample.narrow (Session.environmentAt 0)
      Sample.wide ∧
    Sample.share.isConstantIn (["side"].contains ·) = true ∧
    ∃ result : Except Stop (Value Rat),
      ((Session.environmentAt 0).eval Sample.share).run Sample.narrow =
        .ofResult Sample.narrow result ∧
      ((Session.environmentAt 0).eval Sample.share).run Sample.wide =
        .ofResult Sample.wide result := by
  have constant : Sample.share.isConstantIn (["side"].contains ·) = true := by decide
  obtain ⟨result, _, here, there, -⟩ := Env.eval_told_by_names Sample.narrow_agrees constant
  exact ⟨Sample.narrow_agrees, constant, result, here, there⟩

end ShapeGrammar
