import ShapeGrammar.Affine
import ShapeGrammar.Path.Operator

/-!
# Path storage

Segments in drawing order, with the pen position and the start of the present
sub-path. Drawing with no sub-path open starts one at the pen. Nothing here
interprets the geometry.
-/

set_option autoImplicit false

namespace ShapeGrammar.Path

inductive Segment (α : Type) where
  | move (target : Point α)
  | line (target : Point α)
  /-- An elliptical arc from the pen; the angle turns its x axis, in degrees. -/
  | arc (target radii : Point α) (angle : α) (large sweep : Bool)
  | quad (control target : Point α)
  | cubic (control1 control2 target : Point α)
  | close

namespace Segment

variable {α : Type}

def endPoint? : Segment α → Option (Point α)
  | .move p => some p
  | .line p => some p
  | .arc p _ _ _ _ => some p
  | .quad _ p => some p
  | .cubic _ _ p => some p
  | .close => none

def withEnd (p : Point α) : Segment α → Segment α
  | .move _ => .move p
  | .line _ => .line p
  | .arc _ radii angle large sweep => .arc p radii angle large sweep
  | .quad c _ => .quad c p
  | .cubic c d _ => .cubic c d p
  | .close => .close

end Segment

structure Storage (α : Type) where
  segments : Array (Segment α)
  pen : Point α
  subpathStart : Point α
  isOpen : Bool

namespace Storage

variable {α : Type}

def length (s : Storage α) : Nat := s.segments.size

def lastEnd? (s : Storage α) : Option (Point α) := s.segments.back?.bind Segment.endPoint?

def moveTo (s : Storage α) (p : Point α) : Storage α :=
  { segments := s.segments.push (.move p), pen := p, subpathStart := p, isOpen := true }

/-- The storage with a sub-path open, started at the pen if there was none. -/
def opened (s : Storage α) : Storage α := if s.isOpen then s else s.moveTo s.pen

def drawn (s : Storage α) (segment : Segment α) (target : Point α) : Storage α :=
  { s.opened with segments := s.opened.segments.push segment, pen := target }

def lineTo (s : Storage α) (target : Point α) : Storage α := s.drawn (.line target) target

def arcTo (s : Storage α) (target radii : Point α) (angle : α) (large sweep : Bool) : Storage α :=
  s.drawn (.arc target radii angle large sweep) target

def quadTo (s : Storage α) (control target : Point α) : Storage α :=
  s.drawn (.quad control target) target

def cubicTo (s : Storage α) (control1 control2 target : Point α) : Storage α :=
  s.drawn (.cubic control1 control2 target) target

def snapped (s : Storage α) (p : Point α) : Array (Segment α) :=
  match s.segments.back? with
  | some last => s.segments.pop.push (last.withEnd p)
  | none => s.segments

variable [Scalar α]

def empty : Storage α := ⟨#[], .origin, .origin, false⟩

/-- Closes the open sub-path. An aligned close first moves an end that misses
the start of the sub-path onto it. -/
def close (s : Storage α) (align : Bool) : Storage α :=
  if s.isOpen then
    let segments :=
      if align && s.pen != s.subpathStart then s.snapped s.subpathStart else s.segments
    { s with segments := segments.push .close, pen := s.subpathStart, isOpen := false }
  else s

/-- Where an operator puts a pair of coordinates: through the transform, or
as an offset from the pen by its linear part. -/
def place (s : Storage α) (op : Operator) (m : Affine α) (x y : α) : Point α :=
  if op.isRelative then s.pen.offset (m.applyVector ⟨x, y⟩) else m.apply ⟨x, y⟩

/-- A mirroring transform turns the sense of an arc. -/
def append (s : Storage α) (op : Operator) (flags : Flags) (isCubic : Bool) (args : Args α)
    (m : Affine α) : Storage α :=
  let place := s.place op m
  match op with
  | .moveTo | .moveRel => s.moveTo (place args.x args.y)
  | .lineTo | .lineRel => s.lineTo (place args.x args.y)
  | .arcTo | .arcRel =>
    let mirrored := decide (m.det < 0)
    let clockwise := flags.has .clockwise != mirrored
    s.arcTo (place args.x args.y) ⟨args.rx * m.scaleFactor, args.ry * m.scaleFactor⟩
      (args.angle + m.rotation) (flags.has .large) (!clockwise)
  | .curveTo | .curveRel =>
    if isCubic then
      s.cubicTo (place args.x1 args.y1) (place args.x2 args.y2) (place args.x args.y)
    else s.quadTo (place args.x1 args.y1) (place args.x args.y)
  | .closePoly => s.close (flags.has .align)

end Storage

end ShapeGrammar.Path
