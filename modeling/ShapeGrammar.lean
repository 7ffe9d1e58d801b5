import ShapeGrammar.Attempt
import ShapeGrammar.Scalar
import ShapeGrammar.Decimal
import ShapeGrammar.Scalar.Double
import ShapeGrammar.Random
import ShapeGrammar.Affine
import ShapeGrammar.Adjustment
import ShapeGrammar.Expr
import ShapeGrammar.Bundle
import ShapeGrammar.Value
import ShapeGrammar.Path.Operator
import ShapeGrammar.Fault
import ShapeGrammar.Eval
import ShapeGrammar.LoopRange
import ShapeGrammar.Path.Storage
import ShapeGrammar.FrameRef
import ShapeGrammar.Path.Compiled
import ShapeGrammar.Path.Op
import ShapeGrammar.Switch
import ShapeGrammar.Statement
import ShapeGrammar.Stack
import ShapeGrammar.Shape
import ShapeGrammar.Scope
import ShapeGrammar.Grammar
import ShapeGrammar.Renderer
import ShapeGrammar.Recorder
import ShapeGrammar.Session
import ShapeGrammar.Expansion.Environment
import ShapeGrammar.Expansion.Replica
import ShapeGrammar.Expansion.Step
import ShapeGrammar.Expansion
import ShapeGrammar.Proofs.InStep
import ShapeGrammar.Proofs.Evaluation
import ShapeGrammar.Proofs.SamePlace.Sessions
import ShapeGrammar.Proofs.Fetching
import ShapeGrammar.Proofs.Fitness
import ShapeGrammar.Proofs.Legacy
import ShapeGrammar.Proofs.Rendering
import ShapeGrammar.Proofs.Renewal
import ShapeGrammar.Proofs.Reproduction
import ShapeGrammar.Proofs.Safety
import ShapeGrammar.Proofs.Independence
import ShapeGrammar.Proofs.Scoping
import ShapeGrammar.Proofs.Termination
import ShapeGrammar.Proofs.Protocol
import ShapeGrammar.Proofs.Naming
import ShapeGrammar.Proofs.Identity
import ShapeGrammar.Proofs.Limits
import ShapeGrammar.Proofs.Cloning
import ShapeGrammar.Proofs.Subpaths
import ShapeGrammar.Proofs.Tiling
import ShapeGrammar.Proofs.Mapping
import ShapeGrammar.Proofs.Arcs
import ShapeGrammar.Proofs.Ranges
import ShapeGrammar.Proofs.Weights
import ShapeGrammar.Proofs.Coordinates
import ShapeGrammar.Proofs.Rationals
import ShapeGrammar.Proofs.Choice
import ShapeGrammar.Proofs.Handles
import ShapeGrammar.Proofs.Cases
import ShapeGrammar.Proofs.Ranks
import ShapeGrammar.Proofs.Replicas
import ShapeGrammar.Proofs.Colours
import ShapeGrammar.Proofs.Lanes
import ShapeGrammar.Proofs.Operators
import ShapeGrammar.Proofs.Quiet
import ShapeGrammar.Proofs.KnownEnd.Sessions
import ShapeGrammar.Proofs.KnownEnd.Statements
import ShapeGrammar.Proofs.KnownEnd.Store
import ShapeGrammar.Proofs.Seeds
import ShapeGrammar.Proofs.Replay
import ShapeGrammar.Proofs.Streams
import ShapeGrammar.Proofs.Constancy
import ShapeGrammar.Proofs.Widths
