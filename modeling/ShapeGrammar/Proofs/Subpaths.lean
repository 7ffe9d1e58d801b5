import Mathlib.Data.List.Chain
import ShapeGrammar.Path.Storage

/-!
# Sub-paths

Whatever is drawn, the segments of a storage are sub-paths laid end to end, and
the pen, the start of the present sub-path and whether it is open can be read off
the last of them. The invariant is an equation: a storage is empty, or it is the
one that the sub-paths drawn so far determine.
-/

set_option autoImplicit false

namespace ShapeGrammar.Path

variable {α : Type}

inductive PenStep (α : Type) where
  | move (target : Point α)
  | line (target : Point α)
  | arc (target radii : Point α) (angle : α) (large sweep : Bool)
  | quad (control target : Point α)
  | cubic (control1 control2 target : Point α)
  | close (align : Bool)

def PenStep.segment : PenStep α → Segment α
  | .move target => .move target
  | .line target => .line target
  | .arc target radii angle large sweep => .arc target radii angle large sweep
  | .quad control target => .quad control target
  | .cubic control1 control2 target => .cubic control1 control2 target
  | .close _ => .close

namespace Storage

variable [Scalar α]

def step (s : Storage α) : PenStep α → Storage α
  | .move target => s.moveTo target
  | .line target => s.lineTo target
  | .arc target radii angle large sweep => s.arcTo target radii angle large sweep
  | .quad control target => s.quadTo control target
  | .cubic control1 control2 target => s.cubicTo control1 control2 target
  | .close align => s.close align

def run (s : Storage α) : List (PenStep α) → Storage α
  | [] => s
  | step :: rest => (s.step step).run rest

end Storage

/-! ### One sub-path -/

namespace Segment

def isDrawn : Segment α → Bool
  | .move _ => false
  | .close => false
  | _ => true

def moved? : Segment α → Option (Point α)
  | .move p => some p
  | _ => none

theorem isDrawn_withEnd (segment : Segment α) (p : Point α) :
    (segment.withEnd p).isDrawn = segment.isDrawn := by
  cases segment <;> rfl

theorem moved?_of_isDrawn {segment : Segment α} (h : segment.isDrawn) : segment.moved? = none := by
  cases segment <;> first | rfl | cases h

theorem endPoint?_of_ne_close {segment : Segment α} (h : segment ≠ .close) (p : Point α) :
    segment.endPoint? = some (segment.endPoint?.getD p) := by
  cases segment <;> first | rfl | exact absurd rfl h

theorem withEnd_of_endPoint? {segment : Segment α} {p : Point α} (h : segment.endPoint? = some p) :
    segment.withEnd p = segment := by
  cases segment <;> simp_all [endPoint?, withEnd]

theorem ne_close_of_isDrawn {segment : Segment α} (h : segment.isDrawn) : segment ≠ .close := by
  rintro rfl
  cases h

end Segment

structure Subpath (α : Type) where
  start : Point α
  drawn : List (Segment α)
  isClosed : Bool
  allDrawn : ∀ segment ∈ drawn, segment.isDrawn

namespace Subpath

def segments (p : Subpath α) : List (Segment α) :=
  .move p.start :: p.drawn ++ if p.isClosed then [.close] else []

def final (p : Subpath α) : Segment α :=
  if p.isClosed then .close else p.drawn.getLast?.getD (.move p.start)

def pen (p : Subpath α) : Point α := p.final.endPoint?.getD p.start

def begun (p : Point α) : Subpath α := ⟨p, [], false, nofun⟩

def extended (p : Subpath α) (segment : Segment α) (h : segment.isDrawn) : Subpath α :=
  ⟨p.start, p.drawn ++ [segment], false,
    List.forall_mem_append.mpr ⟨p.allDrawn, List.forall_mem_singleton.mpr h⟩⟩

def closed (p : Subpath α) : Subpath α := { p with isClosed := true }

def aligned (p : Subpath α) : Subpath α where
  start := p.start
  drawn := p.drawn.dropLast ++ (p.drawn.getLast?.map (Segment.withEnd p.start)).toList
  isClosed := p.isClosed
  allDrawn := by
    intro segment h
    rcases List.mem_append.mp h with old | new
    · exact p.allDrawn segment (List.dropLast_subset _ old)
    · obtain ⟨last, hlast, rfl⟩ := Option.map_eq_some_iff.mp (Option.mem_toList.mp new)
      rw [Segment.isDrawn_withEnd]
      exact p.allDrawn last (List.mem_of_getLast? hlast)

theorem segments_closed {p : Subpath α} (h : p.isClosed = false) :
    p.closed.segments = p.segments ++ [.close] := by
  simp [segments, closed, h]

/-- To align a sub-path is to change where its last segment ends; one that only
has a start is aligned as it is. -/
theorem segments_aligned {p : Subpath α} (h : p.isClosed = false) :
    ∃ front last, p.segments = front ++ [last] ∧
      p.aligned.segments = front ++ [last.withEnd p.start] := by
  rcases List.eq_nil_or_concat p.drawn with none | ⟨front, last, some⟩
  · exact ⟨[], .move p.start, by simp [segments, h, none], by simp [segments, aligned, h, none,
      Segment.withEnd]⟩
  · exact ⟨.move p.start :: front, last, by simp [segments, h, some], by simp [segments, aligned,
      h, some]⟩

theorem pen_extended (p : Subpath α) {segment : Segment α} (h : segment.isDrawn) {target : Point α}
    (ends : segment.endPoint? = some target) : (p.extended segment h).pen = target := by
  simp [pen, final, extended, ends]

theorem getLast?_segments (p : Subpath α) : p.segments.getLast? = some p.final := by
  by_cases closed : p.isClosed = true
  · simp [segments, final, closed, List.getLast?_cons]
  · simp [segments, final, closed, List.getLast?_cons]

/-- The last segment tells whether the sub-path is closed. -/
theorem final_ne_close_iff (p : Subpath α) : p.final ≠ .close ↔ p.isClosed = false := by
  by_cases closed : p.isClosed = true
  · simp [final, closed]
  · have unclosed : p.final ≠ .close := by
      rw [final, if_neg closed]
      cases last : p.drawn.getLast? with
      | none => simp
      | some segment => exact Segment.ne_close_of_isDrawn (p.allDrawn _ (List.mem_of_getLast? last))
    simpa [unclosed] using closed

theorem filterMap_moved? (p : Subpath α) : p.segments.filterMap Segment.moved? = [p.start] := by
  have none : p.drawn.filterMap Segment.moved? = [] := by
    rw [List.filterMap_eq_nil_iff]
    exact fun segment h => Segment.moved?_of_isDrawn (p.allDrawn segment h)
  by_cases closed : p.isClosed = true <;> simp [segments, closed, none, Segment.moved?]

end Subpath

/-! ### The storage that sub-paths determine -/

namespace Storage

def after (earlier : List (Subpath α)) (p : Subpath α) : Storage α where
  segments := ((earlier ++ [p]).flatMap Subpath.segments).toArray
  pen := p.pen
  subpathStart := p.start
  isOpen := !p.isClosed

theorem segments_after (earlier : List (Subpath α)) (p : Subpath α) :
    (after earlier p).segments.toList = earlier.flatMap Subpath.segments ++ p.segments := by
  simp [after]

/-- The segments and the state decide whether a storage is the one that sub-paths
determine. -/
theorem eq_after {s : Storage α} {earlier : List (Subpath α)} {p : Subpath α}
    (segments : s.segments.toList = earlier.flatMap Subpath.segments ++ p.segments)
    (pen : s.pen = p.pen) (start : s.subpathStart = p.start) (isOpen : s.isOpen = !p.isClosed) :
    s = after earlier p := by
  rw [← segments_after] at segments
  cases s with
  | mk stored at_ from_ open_ =>
    obtain rfl := Array.toList_inj.mp segments
    obtain rfl : at_ = p.pen := pen
    obtain rfl : from_ = p.start := start
    obtain rfl : open_ = !p.isClosed := isOpen
    rfl

theorem moveTo_after (earlier : List (Subpath α)) (p : Subpath α) (q : Point α) :
    (after earlier p).moveTo q = after (earlier ++ [p]) (.begun q) := by
  apply eq_after
  · simp [moveTo, segments_after, Subpath.segments, Subpath.begun]
  · rfl
  · rfl
  · rfl

theorem drawn_after_open {earlier : List (Subpath α)} {p : Subpath α} (h : p.isClosed = false)
    {segment : Segment α} (isDrawn : segment.isDrawn) {target : Point α}
    (ends : segment.endPoint? = some target) :
    (after earlier p).drawn segment target = after earlier (p.extended segment isDrawn) := by
  have already : (after earlier p).opened = after earlier p := by simp [opened, after, h]
  rw [drawn, already]
  apply eq_after
  · simp [segments_after, Subpath.segments, Subpath.extended, h]
  · exact (p.pen_extended isDrawn ends).symm
  · rfl
  · simp [after, h, Subpath.extended]

/-- With no sub-path open one is started at the pen first. -/
theorem drawn_of_not_isOpen {s : Storage α} (h : s.isOpen = false) (segment : Segment α)
    (target : Point α) : s.drawn segment target = (s.moveTo s.pen).drawn segment target := by
  have starts : s.opened = (s.moveTo s.pen).opened := by simp [opened, h, moveTo]
  rw [drawn, drawn, starts]

theorem snapped_segments {s : Storage α} {front : List (Segment α)} {last : Segment α}
    (h : s.segments.toList = front ++ [last]) (p : Point α) :
    (s.snapped p).toList = front ++ [last.withEnd p] := by
  have back : s.segments.back? = some last := by
    rw [← Array.getLast?_toList, h, List.getLast?_concat]
  simp [snapped, back, h]

variable [Scalar α]

/-- A close adds itself. Aligned, it takes an end that misses the start there. -/
theorem segments_close {s : Storage α} (isOpen : s.isOpen = true) {front : List (Segment α)}
    {last : Segment α} (h : s.segments.toList = front ++ [last]) (align : Bool) :
    (s.close align).segments.toList = front ++
      [if align && s.pen != s.subpathStart then last.withEnd s.subpathStart else last, .close] := by
  rw [close, if_pos isOpen]
  by_cases misses : (align && s.pen != s.subpathStart) = true
  · simp only [misses, if_true, Array.toList_push, snapped_segments h, List.append_assoc,
      List.cons_append, List.nil_append]
  · simp only [misses, Bool.false_eq_true, if_false, Array.toList_push, h, List.append_assoc,
      List.cons_append, List.nil_append]

theorem pen_close {s : Storage α} (isOpen : s.isOpen = true) (align : Bool) :
    (s.close align).pen = s.subpathStart := by
  rw [close, if_pos isOpen]

@[simp] theorem subpathStart_close (s : Storage α) (align : Bool) :
    (s.close align).subpathStart = s.subpathStart := by
  rw [close]
  split <;> rfl

@[simp] theorem isOpen_close (s : Storage α) (align : Bool) : (s.close align).isOpen = false := by
  rw [close]
  split
  · rfl
  · rename_i unopened
    simpa using unopened

theorem moveTo_empty (q : Point α) : (empty : Storage α).moveTo q = after [] (.begun q) := rfl

theorem close_of_not_isOpen {s : Storage α} (h : s.isOpen = false) (align : Bool) :
    s.close align = s := by
  simp [close, h]

theorem getLast?_step (s : Storage α) (step : PenStep α)
    (adds : s.isOpen = true ∨ ∀ align, step ≠ .close align) :
    (s.step step).segments.toList.getLast? = some step.segment := by
  cases step with
  | move target => simp [Storage.step, moveTo, PenStep.segment]
  | line target => simp [Storage.step, lineTo, drawn, PenStep.segment]
  | arc target radii angle large sweep => simp [Storage.step, arcTo, drawn, PenStep.segment]
  | quad control target => simp [Storage.step, quadTo, drawn, PenStep.segment]
  | cubic control1 control2 target => simp [Storage.step, cubicTo, drawn, PenStep.segment]
  | close align =>
    have isOpen : s.isOpen = true := adds.resolve_right fun other => other align rfl
    simp [Storage.step, close, isOpen, PenStep.segment]

theorem close_after_open (earlier : List (Subpath α)) {p : Subpath α} (h : p.isClosed = false)
    (align : Bool) : ∃ q : Subpath α, (after earlier p).close align = after earlier q.closed := by
  have isOpen : (after earlier p).isOpen = true := by simp [after, h]
  obtain ⟨front, last, whole, aligned⟩ := p.segments_aligned h
  -- Aligned or not, what gets closed is an open sub-path with the same start.
  obtain ⟨q, unclosed, start, outline⟩ : ∃ q : Subpath α, q.isClosed = false ∧ q.start = p.start ∧
      q.segments =
        front ++ [if align && p.pen != p.start then last.withEnd p.start else last] := by
    by_cases misses : (align && p.pen != p.start) = true
    · rw [if_pos misses]
      exact ⟨p.aligned, h, rfl, aligned⟩
    · rw [if_neg misses]
      exact ⟨p, h, rfl, whole⟩
  exists q
  apply eq_after
  · have stored := segments_after earlier p
    rw [whole, ← List.append_assoc] at stored
    rw [segments_close isOpen stored, Subpath.segments_closed unclosed, outline]
    simp [after]
  · rw [pen_close isOpen]
    exact start.symm
  · rw [subpathStart_close]
    exact start.symm
  · exact isOpen_close _ align

/-! ### What every step keeps -/

/-- Nothing was drawn yet, or the sub-paths drawn so far determine the storage. -/
def Standing (s : Storage α) : Prop := s = .empty ∨ ∃ earlier p, s = .after earlier p

theorem Standing.moveTo {s : Storage α} (h : s.Standing) (q : Point α) :
    (s.moveTo q).Standing := by
  rcases h with rfl | ⟨earlier, p, rfl⟩
  · exact .inr ⟨[], .begun q, rfl⟩
  · exact .inr ⟨earlier ++ [p], .begun q, moveTo_after earlier p q⟩

theorem Standing.drawn {s : Storage α} (h : s.Standing) {segment : Segment α}
    (isDrawn : segment.isDrawn) {target : Point α} (ends : segment.endPoint? = some target) :
    (s.drawn segment target).Standing := by
  rcases h with rfl | ⟨earlier, p, rfl⟩
  · rw [drawn_of_not_isOpen rfl, moveTo_empty, drawn_after_open rfl isDrawn ends]
    exact .inr ⟨_, _, rfl⟩
  by_cases closed : p.isClosed = true
  · have unopened : (after earlier p).isOpen = false := by simp [after, closed]
    rw [drawn_of_not_isOpen unopened, moveTo_after, drawn_after_open rfl isDrawn ends]
    exact .inr ⟨_, _, rfl⟩
  · rw [drawn_after_open (by simpa using closed) isDrawn ends]
    exact .inr ⟨_, _, rfl⟩

theorem Standing.close {s : Storage α} (h : s.Standing) (align : Bool) :
    (s.close align).Standing := by
  rcases h with rfl | ⟨earlier, p, rfl⟩
  · exact .inl (close_of_not_isOpen rfl align)
  by_cases closed : p.isClosed = true
  · rw [close_of_not_isOpen (by simp [after, closed])]
    exact .inr ⟨_, _, rfl⟩
  · obtain ⟨q, closes⟩ := close_after_open earlier (by simpa using closed) align
    exact .inr ⟨earlier, q.closed, closes⟩

theorem Standing.step {s : Storage α} (h : s.Standing) (step : PenStep α) :
    (s.step step).Standing := by
  cases step with
  | move target => exact h.moveTo target
  | line target => exact h.drawn rfl rfl
  | arc target radii angle large sweep => exact h.drawn rfl rfl
  | quad control target => exact h.drawn rfl rfl
  | cubic control1 control2 target => exact h.drawn rfl rfl
  | close align => exact h.close align

theorem Standing.run {s : Storage α} (h : s.Standing) (steps : List (PenStep α)) :
    (s.run steps).Standing := by
  induction steps generalizing s with
  | nil => exact h
  | cons step rest ih => exact ih (h.step step)

end Storage

/-! ### The laws of a storage -/

def EndsOpen (segments : List (Segment α)) : Prop :=
  ∃ last, segments.getLast? = some last ∧ last ≠ .close

def Follows (first second : Segment α) : Prop := first ≠ .close ∨ ∃ p, second = .move p

theorem Subpath.isChain_segments (p : Subpath α) : p.segments.IsChain Follows := by
  have unclosed : ∀ segment ∈ .move p.start :: p.drawn, segment ≠ .close := by
    intro segment h
    rcases List.mem_cons.mp h with rfl | drawn
    · simp
    · exact Segment.ne_close_of_isDrawn (p.allDrawn segment drawn)
  rw [segments, List.isChain_append]
  refine ⟨?_, ?_, ?_⟩
  · exact (List.pairwise_of_forall_mem_list fun x hx _ _ => .inl (unclosed x hx)).isChain
  · by_cases closed : p.isClosed = true <;> simp [closed]
  · exact fun x hx _ _ => .inl (unclosed x (List.mem_of_getLast? hx))

theorem Subpath.isChain_flatMap (paths : List (Subpath α)) :
    (paths.flatMap Subpath.segments).IsChain Follows := by
  induction paths with
  | nil => exact .nil
  | cons p rest ih =>
    rw [List.flatMap_cons, List.isChain_append]
    refine ⟨p.isChain_segments, ih, ?_⟩
    intro x hx y hy
    cases rest with
    | nil => cases hy
    | cons q others =>
      right
      exact ⟨q.start, by simpa [segments] using hy.symm⟩

/-- Whatever does not start a sub-path stands in one that is open. -/
theorem Subpath.endsOpen_of_flatMap {paths : List (Subpath α)} {before rest : List (Segment α)}
    {segment : Segment α} (h : paths.flatMap Subpath.segments = before ++ segment :: rest) :
    (∃ p, segment = .move p) ∨ EndsOpen before := by
  have chain := Subpath.isChain_flatMap paths
  rw [h, List.isChain_append] at chain
  rcases List.eq_nil_or_concat before with rfl | ⟨front, last, rfl⟩
  · left
    cases paths with
    | nil => simp at h
    | cons p others => exact ⟨p.start, by simpa [segments] using (congrArg List.head? h).symm⟩
  · rcases chain.2.2 last (by simp) segment rfl with unclosed | starts
    · exact .inr ⟨last, by simp, unclosed⟩
    · exact .inl starts

def lastMove? (segments : List (Segment α)) : Option (Point α) :=
  (segments.filterMap Segment.moved?).getLast?

namespace Storage

theorem getLast?_after (earlier : List (Subpath α)) (p : Subpath α) :
    (after earlier p).segments.toList.getLast? = some p.final := by
  rw [segments_after, List.getLast?_append, p.getLast?_segments]
  rfl

theorem lastMove?_after (earlier : List (Subpath α)) (p : Subpath α) :
    lastMove? (after earlier p).segments.toList = some p.start := by
  rw [lastMove?, segments_after, List.filterMap_append, p.filterMap_moved?, List.getLast?_concat]

theorem segments_prefix_moveTo (s : Storage α) (p : Point α) :
    s.segments.toList <+: (s.moveTo p).segments.toList := by
  simp [moveTo]

theorem segments_prefix_drawn (s : Storage α) (segment : Segment α) (target : Point α) :
    s.segments.toList <+: (s.drawn segment target).segments.toList := by
  have opened : s.segments.toList <+: s.opened.segments.toList := by
    unfold opened
    split
    · exact List.prefix_rfl
    · exact s.segments_prefix_moveTo s.pen
  exact opened.trans (by simp [drawn])

variable [Scalar α]

structure WellFormed (s : Storage α) : Prop where
  subpaths : ∃ paths : List (Subpath α), s.segments.toList = paths.flatMap Subpath.segments
  /-- A segment that is drawn, or a close, never comes without an open sub-path. -/
  within : ∀ before segment rest, s.segments.toList = before ++ segment :: rest →
    (∃ p, segment = .move p) ∨ EndsOpen before
  /-- A close is the end, or a new sub-path follows. -/
  afterClose : ∀ before rest, s.segments.toList = before ++ .close :: rest →
    rest = [] ∨ ∃ p more, rest = .move p :: more
  isOpen : s.isOpen = true ↔ EndsOpen s.segments.toList
  start : s.subpathStart = (lastMove? s.segments.toList).getD .origin
  /-- The pen is where the last segment ends, at the start after a close, and at
  the origin to begin with. -/
  pen : s.pen = s.segments.toList.getLast?.elim .origin fun last =>
    last.endPoint?.getD s.subpathStart

/-- What a further step does to the segments that are there: nothing, unless it is
an aligned close and the pen is not at the start of the open sub-path. It adds its
own as the last, but for a close that finds nothing open. -/
structure Retains (s : Storage α) : Prop where
  unopened : s.isOpen = false → ∀ align, s.step (.close align) = s
  added : ∀ step, (s.isOpen = true ∨ ∀ align, step ≠ .close align) →
    (s.step step).segments.toList.getLast? = some step.segment
  aligned : s.isOpen = true → (s.pen != s.subpathStart) = true →
    ∃ front last, s.segments.toList = front ++ [last] ∧
      (s.step (.close true)).segments.toList = front ++ [last.withEnd s.subpathStart, .close]
  stored : ∀ step, ¬(step = .close true ∧ s.isOpen = true ∧ (s.pen != s.subpathStart) = true) →
    s.segments.toList <+: (s.step step).segments.toList

theorem Standing.subpaths {s : Storage α} (h : s.Standing) :
    ∃ paths : List (Subpath α), s.segments.toList = paths.flatMap Subpath.segments := by
  rcases h with rfl | ⟨earlier, p, rfl⟩
  · exact ⟨[], rfl⟩
  · exact ⟨earlier ++ [p], rfl⟩

theorem Standing.isOpen_iff {s : Storage α} (h : s.Standing) :
    s.isOpen = true ↔ EndsOpen s.segments.toList := by
  rcases h with rfl | ⟨earlier, p, rfl⟩
  · simp [empty, EndsOpen]
  · have ends : EndsOpen (after earlier p).segments.toList ↔ p.final ≠ .close := by
      simp only [EndsOpen, getLast?_after, Option.some.injEq, exists_eq_left']
    rw [ends, p.final_ne_close_iff]
    simp [after]

theorem Standing.wellFormed {s : Storage α} (h : s.Standing) : s.WellFormed := by
  obtain ⟨paths, stored⟩ := h.subpaths
  have within : ∀ before segment rest, s.segments.toList = before ++ segment :: rest →
      (∃ p, segment = .move p) ∨ EndsOpen before := by
    intro before segment rest split
    exact Subpath.endsOpen_of_flatMap (stored.symm.trans split)
  constructor
  case subpaths => exact ⟨paths, stored⟩
  case within => exact within
  case afterClose =>
    intro before rest split
    cases rest with
    | nil => exact .inl rfl
    | cons segment more =>
      right
      rcases within (before ++ [.close]) segment more (by simp [split]) with ⟨p, rfl⟩ | isOpen
      · exact ⟨p, more, rfl⟩
      · simp [EndsOpen] at isOpen
  case isOpen => exact h.isOpen_iff
  case start =>
    rcases h with rfl | ⟨earlier, p, rfl⟩
    · rfl
    · rw [lastMove?_after]
      rfl
  case pen =>
    rcases h with rfl | ⟨earlier, p, rfl⟩
    · rfl
    · rw [getLast?_after]
      rfl

theorem Standing.exists_last {s : Storage α} (h : s.Standing) (isOpen : s.isOpen = true) :
    ∃ front last, s.segments.toList = front ++ [last] ∧ last.endPoint? = some s.pen := by
  obtain ⟨last, hlast, unclosed⟩ := h.isOpen_iff.mp isOpen
  obtain ⟨front, stored⟩ := List.getLast?_eq_some_iff.mp hlast
  have pen := h.wellFormed.pen
  rw [hlast] at pen
  exact ⟨front, last, stored, pen ▸ Segment.endPoint?_of_ne_close unclosed _⟩

theorem Standing.retains {s : Storage α} (h : s.Standing) : s.Retains := by
  constructor
  case unopened => exact fun unopened align => close_of_not_isOpen unopened align
  case added => exact s.getLast?_step
  case aligned =>
    intro isOpen misses
    obtain ⟨front, last, stored, _⟩ := h.exists_last isOpen
    have closes := segments_close isOpen stored true
    rw [Bool.true_and, if_pos misses] at closes
    exact ⟨front, last, stored, closes⟩
  case stored =>
    intro step other
    cases step with
    | move target => exact s.segments_prefix_moveTo target
    | line target => exact s.segments_prefix_drawn _ _
    | arc target radii angle large sweep => exact s.segments_prefix_drawn _ _
    | quad control target => exact s.segments_prefix_drawn _ _
    | cubic control1 control2 target => exact s.segments_prefix_drawn _ _
    | close align =>
      change s.segments.toList <+: (s.close align).segments.toList
      by_cases isOpen : s.isOpen = true
      · obtain ⟨front, last, stored, _⟩ := h.exists_last isOpen
        have closes := segments_close isOpen stored align
        have meets : ¬(align && s.pen != s.subpathStart) = true := by
          intro misses
          obtain ⟨rfl, apart⟩ := Bool.and_eq_true_iff.mp misses
          exact other ⟨rfl, isOpen, apart⟩
        rw [if_neg meets] at closes
        rw [closes, stored]
        simp
      · have same : s.close align = s := close_of_not_isOpen (by simpa using isOpen) align
        simp only [same, List.prefix_rfl]

/-- Whatever was drawn on a new storage, its segments are sub-paths, of which only
the last can be open, its pen and its start are theirs, and no further step
changes them but for an aligned close. -/
theorem run_wellFormed (steps : List (PenStep α)) :
    ((empty : Storage α).run steps).WellFormed ∧ ((empty : Storage α).run steps).Retains := by
  have standing : ((empty : Storage α).run steps).Standing := Standing.run (.inl rfl) steps
  exact ⟨standing.wellFormed, standing.retains⟩

end Storage

end ShapeGrammar.Path
