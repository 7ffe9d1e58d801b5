import ShapeGrammar.Proofs.Protocol

/-!
# What commands cover

Every command of a path covers a range of its segments. Segments are only ever
added while the path is open, so a range that was there when the command was
added is there in the finished path.
-/

set_option autoImplicit false

namespace ShapeGrammar.Path

variable {α : Type}

theorem Storage.length_le_opened (s : Storage α) : s.length ≤ s.opened.length := by
  unfold opened
  split
  · exact Nat.le_refl _
  · simp [moveTo, length]

theorem Storage.length_le_drawn (s : Storage α) (segment : Segment α) (target : Point α) :
    s.length ≤ (s.drawn segment target).length := by
  have opened := s.length_le_opened
  simp only [drawn, length, Array.size_push] at opened ⊢
  omega

theorem Storage.size_snapped (s : Storage α) (p : Point α) :
    (s.snapped p).size = s.segments.size := by
  unfold snapped
  cases last : s.segments.back? with
  | none => rfl
  | some segment =>
    have positive : 0 < s.segments.size := by
      by_contra none
      simp [Array.eq_empty_of_size_eq_zero (Nat.eq_zero_of_not_pos none)] at last
    simp only [Array.size_push, Array.size_pop]
    omega

variable [Scalar α]

theorem Storage.length_le_close (s : Storage α) (align : Bool) :
    s.length ≤ (s.close align).length := by
  unfold close
  split
  · simp only [length, Array.size_push]
    split
    · rw [s.size_snapped]
      exact Nat.le_succ _
    · exact Nat.le_succ _
  · exact Nat.le_refl _

theorem Storage.length_le_append (s : Storage α) (op : Operator) (flags : Flags) (isCubic : Bool)
    (args : Args α) (m : Affine α) : s.length ≤ (s.append op flags isCubic args m).length := by
  have moved : ∀ p, s.length ≤ (s.moveTo p).length := by simp [moveTo, length]
  cases op with
  | moveTo => exact moved _
  | moveRel => exact moved _
  | lineTo => exact s.length_le_drawn _ _
  | lineRel => exact s.length_le_drawn _ _
  | arcTo => exact s.length_le_drawn _ _
  | arcRel => exact s.length_le_drawn _ _
  | curveTo =>
    simp only [append]
    split <;> exact s.length_le_drawn _ _
  | curveRel =>
    simp only [append]
    split <;> exact s.length_le_drawn _ _
  | closePoly => exact s.length_le_close _

def Command.Covers (c : Command α) (length : Nat) : Prop := c.first ≤ c.stop ∧ c.stop ≤ length

structure Compiled.Ranged (p : Compiled α) : Prop where
  terminal : p.terminal = none
  start : p.groupStart ≤ p.storage.length
  covers : ∀ c ∈ p.commands, c.Covers p.storage.length

omit [Scalar α] in
theorem Command.Covers.mono {c : Command α} {n m : Nat} (h : c.Covers n) (hle : n ≤ m) :
    c.Covers m :=
  ⟨h.1, Nat.le_trans h.2 hle⟩

theorem Compiled.Ranged.append {p q : Compiled α} (h : p.Ranged) {op : Operator} {flags : Flags}
    {isCubic : Bool} {args : Args α} {m : Affine α}
    (built : p.append op flags isCubic args m = .ok q) : q.Ranged := by
  have grown := p.storage.length_le_append op flags isCubic args m
  unfold Compiled.append Compiled.ready at built
  split at built
  · cases built
  · split at built
    · cases built
      exact ⟨h.terminal, grown, fun c hc => (h.covers c hc).mono grown⟩
    · cases built
      exact ⟨h.terminal, Nat.le_trans h.start grown, fun c hc => (h.covers c hc).mono grown⟩

omit [Scalar α] in
theorem Compiled.Ranged.addCommand {p q : Compiled α} (h : p.Ranged) {command : Command α}
    (built : p.addCommand command = .ok q) : q.Ranged := by
  unfold Compiled.addCommand at built
  split at built
  · cases built
  · cases built
    refine ⟨h.terminal, h.start, List.forall_mem_append.mpr ⟨h.covers, ?_⟩⟩
    exact List.forall_mem_singleton.mpr ⟨h.start, Nat.le_refl _⟩

theorem Compiled.Ranged.extends {p q : Compiled α} (h : p.Ranged) (step : p.Extends q) :
    q.Ranged := by
  cases step with
  | append built => exact h.append built
  | command built => exact h.addCommand built

/-- A path that can be drawn: it has commands, and they cover segments that are
there. -/
structure Compiled.Whole (p : Compiled α) : Prop where
  some : p.allCommands ≠ []
  covers : ∀ c ∈ p.allCommands, c.Covers p.storage.segments.size

theorem Compiled.Ranged.empty (frame : FrameRef) : (Compiled.empty frame : Compiled α).Ranged :=
  ⟨rfl, Nat.le_refl _, nofun⟩

/-- The closing fill covers what no command before it does. -/
theorem Compiled.Ranged.whole {p : Compiled α} (h : p.Ranged) (incomplete : p.complete = false)
    (uid : Nat) : ({ p.sealed with uid := some uid } : Compiled α).Whole := by
  refine ⟨p.allCommands_finished uid incomplete, ?_⟩
  unfold Compiled.sealed
  simp only [incomplete, Bool.false_eq_true, if_false]
  split
  · refine List.forall_mem_append.mpr ⟨h.covers, ?_⟩
    exact List.forall_mem_singleton.mpr ⟨h.start, Nat.le_refl _⟩
  · simp only [Compiled.allCommands, h.terminal, Option.toList_none, List.append_nil]
    exact h.covers

end ShapeGrammar.Path
