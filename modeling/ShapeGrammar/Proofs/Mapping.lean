import Mathlib.Data.List.Forall2
import ShapeGrammar.Proofs.Exact
import ShapeGrammar.Proofs.Subpaths

/-!
# Paths under affine maps

To draw under an affine map is to draw and then to map what was drawn, provided
that the path begins at a point of its own. Operators that are relative follow
because the pen is mapped too. An aligned close compares points that the map may
take to one: with exact arithmetic it does not matter, because to align an end that
is already at the start changes nothing.
-/

set_option autoImplicit false

namespace ShapeGrammar.Path

open Exact

structure Operation (α : Type) where
  operator : Operator
  flags : Flags
  isCubic : Bool
  args : Args α

def Storage.appendAll {α : Type} [Scalar α] (s : Storage α) (m : Affine α) :
    List (Operation α) → Storage α
  | [] => s
  | o :: rest => (s.append o.operator o.flags o.isCubic o.args m).appendAll m rest

/-- Every operator comes down to one step of the pen. -/
theorem Storage.exists_step_eq_append {α : Type} [Scalar α] (s : Storage α) (op : Operator)
    (flags : Flags) (isCubic : Bool) (args : Args α) (m : Affine α) :
    ∃ step : PenStep α, s.append op flags isCubic args m = s.step step := by
  cases op with
  | moveTo => exact ⟨.move _, rfl⟩
  | moveRel => exact ⟨.move _, rfl⟩
  | lineTo => exact ⟨.line _, rfl⟩
  | lineRel => exact ⟨.line _, rfl⟩
  | arcTo => exact ⟨.arc _ _ _ _ _, rfl⟩
  | arcRel => exact ⟨.arc _ _ _ _ _, rfl⟩
  | curveTo =>
    cases isCubic with
    | true => exact ⟨.cubic _ _ _, rfl⟩
    | false => exact ⟨.quad _ _, rfl⟩
  | curveRel =>
    cases isCubic with
    | true => exact ⟨.cubic _ _ _, rfl⟩
    | false => exact ⟨.quad _ _, rfl⟩
  | closePoly => exact ⟨.close _, rfl⟩

theorem Storage.Standing.append {α : Type} [Scalar α] {s : Storage α} (h : s.Standing)
    (op : Operator) (flags : Flags) (isCubic : Bool) (args : Args α) (m : Affine α) :
    (s.append op flags isCubic args m).Standing := by
  obtain ⟨step, same⟩ := s.exists_step_eq_append op flags isCubic args m
  rw [same]
  exact h.step step

variable {K : Type} [Field K] [LinearOrder K] [FloorRing K] [Functions K] {m : Affine K}

/-! ### Images -/

/-- A segment of the same kind, whose points are the images. What an arc has besides
its end point is left open, but for the choice of the longer way round. -/
inductive Segment.Maps (m : Affine K) : Segment K → Segment K → Prop where
  | move (p : Point K) : Maps m (.move p) (.move (m.apply p))
  | line (p : Point K) : Maps m (.line p) (.line (m.apply p))
  | arc (p radii radii' : Point K) (angle angle' : K) (large sweep sweep' : Bool) :
      Maps m (.arc p radii angle large sweep) (.arc (m.apply p) radii' angle' large sweep')
  | quad (c p : Point K) : Maps m (.quad c p) (.quad (m.apply c) (m.apply p))
  | cubic (c d p : Point K) : Maps m (.cubic c d p) (.cubic (m.apply c) (m.apply d) (m.apply p))
  | close : Maps m .close .close

theorem Segment.Maps.withEnd {segment image : Segment K} (h : Maps m segment image) (p : Point K) :
    Maps m (segment.withEnd p) (image.withEnd (m.apply p)) := by
  cases h with
  | move q => exact .move p
  | line q => exact .line p
  | arc q radii radii' angle angle' large sweep sweep' => exact .arc p _ _ _ _ _ _ _
  | quad c q => exact .quad c p
  | cubic c d q => exact .cubic c d p
  | close => exact .close

structure Storage.Maps (m : Affine K) (s t : Storage K) : Prop where
  segments : List.Forall₂ (Segment.Maps m) s.segments.toList t.segments.toList
  pen : t.pen = m.apply s.pen
  start : t.subpathStart = m.apply s.subpathStart
  isOpen : t.isOpen = s.isOpen

namespace Storage

variable {s t : Storage K}

theorem maps_moveTo (h : List.Forall₂ (Segment.Maps m) s.segments.toList t.segments.toList)
    (p : Point K) : Maps m (s.moveTo p) (t.moveTo (m.apply p)) where
  segments := by
    simp only [moveTo, Array.toList_push]
    exact List.rel_append h (.cons (.move p) .nil)
  pen := rfl
  start := rfl
  isOpen := rfl

theorem Maps.opened (h : Maps m s t) : Maps m s.opened t.opened := by
  by_cases isOpen : s.isOpen = true
  · rw [Storage.opened, Storage.opened, h.isOpen, if_pos isOpen, if_pos isOpen]
    exact h
  · rw [Storage.opened, Storage.opened, h.isOpen, if_neg isOpen, if_neg isOpen, h.pen]
    exact maps_moveTo h.segments s.pen

theorem Maps.drawn (h : Maps m s t) {segment image : Segment K} (maps : Segment.Maps m segment image)
    (target : Point K) : Maps m (s.drawn segment target) (t.drawn image (m.apply target)) where
  segments := by
    simp only [Storage.drawn, Array.toList_push]
    exact List.rel_append h.opened.segments (.cons maps .nil)
  pen := rfl
  start := h.opened.start
  isOpen := h.opened.isOpen

/-- With exact arithmetic an aligned close leaves the last segment at the start,
whether or not it was there before. -/
theorem segments_aligned (isOpen : s.isOpen = true) {front : List (Segment K)} {last : Segment K}
    (stored : s.segments.toList = front ++ [last]) (ends : last.endPoint? = some s.pen)
    (align : Bool) :
    (s.close align).segments.toList =
      front ++ [if align then last.withEnd s.subpathStart else last, .close] := by
  rw [segments_close isOpen stored]
  by_cases misses : (s.pen != s.subpathStart) = true
  · rw [misses, Bool.and_true]
  · have meets : s.pen = s.subpathStart := by
      simpa [bne, point_beq_iff] using misses
    have already : last.withEnd s.subpathStart = last :=
      Segment.withEnd_of_endPoint? (meets ▸ ends)
    rw [already, ite_self, ite_self]

theorem Maps.close (h : Maps m s t) (hs : s.Standing) (ht : t.Standing) (align : Bool) :
    Maps m (s.close align) (t.close align) := by
  by_cases isOpen : s.isOpen = true
  · have isOpen' : t.isOpen = true := h.isOpen.trans isOpen
    obtain ⟨front, last, stored, ends⟩ := hs.exists_last isOpen
    obtain ⟨front', last', stored', ends'⟩ := ht.exists_last isOpen'
    -- Read backwards, the two lists begin with the segments that a close may change.
    have pairs := List.forall₂_reverse_iff.mpr h.segments
    rw [stored, stored', List.reverse_concat, List.reverse_concat] at pairs
    obtain ⟨maps, fronts⟩ := List.forall₂_cons.mp pairs
    constructor
    case segments =>
      rw [segments_aligned isOpen stored ends, segments_aligned isOpen' stored' ends', h.start]
      apply List.rel_append (List.forall₂_reverse_iff.mp fronts)
      cases align with
      | true => exact .cons (maps.withEnd _) (.cons .close .nil)
      | false => exact .cons maps (.cons .close .nil)
    case pen => rw [pen_close isOpen, pen_close isOpen', h.start]
    case start => rw [subpathStart_close, subpathStart_close, h.start]
    case isOpen => rw [isOpen_close, isOpen_close]
  · have shut : s.isOpen = false := by simpa using isOpen
    rw [close_of_not_isOpen shut, close_of_not_isOpen (h.isOpen.trans shut)]
    exact h

theorem Maps.place (h : Maps m s t) (op : Operator) (x y : K) :
    t.place op m x y = m.apply (s.place op .identity x y) := by
  by_cases relative : op.isRelative = true
  · simp only [Storage.place, relative, if_true, applyVector_identity, apply_offset, h.pen]
  · simp only [Storage.place, relative, Bool.false_eq_true, if_false, apply_identity]

theorem Maps.append (h : Maps m s t) (hs : s.Standing) (ht : t.Standing) (op : Operator)
    (flags : Flags) (isCubic : Bool) (args : Args K) :
    Maps m (s.append op flags isCubic args .identity) (t.append op flags isCubic args m) := by
  cases op with
  | moveTo | moveRel =>
    simp only [Storage.append, h.place]
    exact maps_moveTo h.segments _
  | lineTo | lineRel =>
    simp only [Storage.append, h.place]
    exact h.drawn (.line _) _
  | arcTo | arcRel =>
    simp only [Storage.append, h.place]
    exact h.drawn (.arc _ _ _ _ _ _ _ _) _
  | curveTo | curveRel =>
    simp only [Storage.append, h.place]
    cases isCubic with
    | true => exact h.drawn (.cubic _ _ _) _
    | false => exact h.drawn (.quad _ _) _
  | closePoly => exact h.close hs ht _

theorem Maps.appendAll (h : Maps m s t) (hs : s.Standing) (ht : t.Standing)
    (operations : List (Operation K)) :
    Maps m (s.appendAll .identity operations) (t.appendAll m operations) := by
  induction operations generalizing s t with
  | nil => exact h
  | cons o rest ih =>
    exact ih (h.append hs ht o.operator o.flags o.isCubic o.args) (hs.append _ _ _ _ _)
      (ht.append _ _ _ _ _)

/-- To append operators under a map, the first of which moves to a point, gives the
image of what they give without it. -/
theorem appendAll_maps (m : Affine K) (flags : Flags) (isCubic : Bool) (args : Args K)
    (operations : List (Operation K)) :
    Maps m ((empty : Storage K).appendAll .identity (⟨.moveTo, flags, isCubic, args⟩ :: operations))
      ((empty : Storage K).appendAll m (⟨.moveTo, flags, isCubic, args⟩ :: operations)) := by
  have start : (empty : Storage K).Standing := .inl rfl
  have moved : Maps m (empty.append .moveTo flags isCubic args .identity)
      (empty.append .moveTo flags isCubic args m) := by
    have placed : (empty : Storage K).place .moveTo m args.x args.y =
        m.apply ((empty : Storage K).place .moveTo .identity args.x args.y) := by
      simp [place, Operator.isRelative]
    simp only [append, placed]
    exact maps_moveTo .nil _
  exact moved.appendAll (start.append _ _ _ _ _) (start.append _ _ _ _ _) operations

end Storage

end ShapeGrammar.Path
