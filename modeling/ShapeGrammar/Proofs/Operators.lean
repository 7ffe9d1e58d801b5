import Mathlib.Data.List.Nodup
import Mathlib.Data.List.Perm.Basic
import Mathlib.Logic.Unique
import ShapeGrammar.Path.Op
import ShapeGrammar.Proofs.Sample

/-!
# Arguments of path operators

A path operator is made from arguments in any order. Which lists of arguments are
accepted, what is told of the curve and what becomes of constant arguments depends on
the arguments alone. Later arguments write over earlier ones, so for the constants
this rests on the checks: they let no two arguments through that write the same number.
-/

set_option autoImplicit false

namespace ShapeGrammar.Path

def Operator.IsArc (op : Operator) : Prop := op = .arcTo ∨ op = .arcRel

def Operator.IsCurve (op : Operator) : Prop := op = .curveTo ∨ op = .curveRel

def Flags.Among (s allowed : Flags) : Prop :=
  ∀ k, s.bits.toNat.testBit k = true → allowed.bits.toNat.testBit k = true

theorem Flags.within_iff {s allowed : Flags} : s.within allowed = true ↔ s.Among allowed := by
  have same : s.within allowed = true ↔ s.bits.toNat &&& allowed.bits.toNat = s.bits.toNat := by
    rw [within, beq_iff_eq, ← UInt32.toNat_inj, UInt32.toNat_and]
  rw [same]
  constructor
  · intro masked k set
    rw [← masked, Nat.testBit_and, Bool.and_eq_true] at set
    exact set.2
  · intro among
    apply Nat.eq_of_testBit_eq
    intro k
    rw [Nat.testBit_and]
    cases set : s.bits.toNat.testBit k with
    | false => rfl
    | true => rw [among k set]; rfl

namespace Op

variable {α : Type} {op : Operator} {args args' : List (ArgName × Expr α)} {flags : Flags}

def Names (args : List (ArgName × Expr α)) (name : ArgName) : Prop := name ∈ args.map Prod.fst

theorem given_iff {name : ArgName} : given args name = true ↔ Names args name := by
  simp [given, Names]

@[mk_iff]
structure Shaped (op : Operator) (args : List (ArgName × Expr α)) : Prop where
  arc : op.IsArc →
    Names args .r ∧ ¬Names args .rx ∧ ¬Names args .ry ∨
    ¬Names args .r ∧ Names args .rx ∧ Names args .ry
  curve : op.IsCurve →
    Names args .x1 ∧ Names args .y1 ∧ (Names args .x2 ↔ Names args .y2)

def Single (e : Expr α) : Prop := ∀ n, e.staticWidth = some n → n = 1

theorem not_any_iff {e : Expr α} : ¬e.staticWidth.any (· != 1) = true ↔ Single e := by
  unfold Single
  cases e.staticWidth <;> simp

theorem checkArgs_cons {seen : List ArgName} {name : ArgName} {e : Expr α} :
    checkArgs op seen ((name, e) :: args) = .ok () ↔
      (op.accepts name = true ∧ name ∉ seen ∧ Single e) ∧
      checkArgs op (name :: seen) args = .ok () := by
  rw [← not_any_iff, checkArgs]
  split
  case isTrue refused => simp_all
  case isFalse taken =>
    split
    case isTrue twice => simp_all
    case isFalse first => split <;> simp_all

/-- Names seen before are as good as names earlier in the list. -/
theorem checkArgs_iff {seen : List ArgName} :
    checkArgs op seen args = .ok () ↔
      (∀ arg ∈ args, op.accepts arg.1 = true ∧ arg.1 ∉ seen ∧ Single arg.2) ∧
      (args.map Prod.fst).Nodup := by
  induction args generalizing seen with
  | nil => simp [checkArgs]
  | cons arg rest ih =>
    have apart : (∀ other ∈ rest, other.1 ≠ arg.1) ↔ arg.1 ∉ rest.map Prod.fst := by
      rw [List.mem_map, not_exists]
      exact forall_congr' fun other => not_and.symm
    rw [checkArgs_cons, ih, List.forall_mem_cons, List.map_cons, List.nodup_cons, ← apart]
    simp only [List.mem_cons, not_or, forall_and]
    tauto

theorem checkShape_iff : checkShape op args = .ok () ↔ Shaped op args := by
  rw [shaped_iff]
  simp only [← given_iff, Operator.IsArc, Operator.IsCurve]
  cases op with
  | arcTo | arcRel =>
    simp only [checkShape]
    cases given args .r <;> cases given args .rx <;> cases given args .ry <;> simp
  | curveTo | curveRel =>
    simp only [checkShape]
    cases given args .x1 <;> cases given args .y1 <;> cases given args .x2 <;>
      cases given args .y2 <;> simp
  | moveTo | moveRel | lineTo | lineRel | closePoly => simp [checkShape]

theorem Names.perm (order : args.Perm args') (name : ArgName) :
    Names args name ↔ Names args' name :=
  (order.map Prod.fst).mem_iff

theorem Shaped.perm (shaped : Shaped op args) (order : args.Perm args') : Shaped op args' := by
  constructor
  · simpa only [Names.perm order] using shaped.arc
  · simpa only [Names.perm order] using shaped.curve

theorem cubic_perm (order : args.Perm args') : cubic op args = cubic op args' := by
  have same : ∀ name, given args name = given args' name := fun name => order.any_eq
  cases op <;> simp only [cubic, same]

/-- Only arcs take radii, and of an arc with one radius the others are not given. -/
theorem Shaped.radii (shaped : Shaped op args)
    (accepted : ∀ arg ∈ args, op.accepts arg.1 = true) (circular : Names args .r) :
    ¬Names args .rx ∧ ¬Names args .ry := by
  obtain ⟨arg, given, named⟩ := List.mem_map.mp circular
  have taken := accepted arg given
  rw [named] at taken
  have arc : op.IsArc := by
    cases op with
    | arcTo => exact .inl rfl
    | arcRel => exact .inr rfl
    | _ => cases taken
  rcases shaped.arc arc with circle | ellipse
  · exact circle.2
  · exact absurd circular ellipse.1

/-- The first name writes no number that the second writes. -/
structure Apart (a b : ArgName) : Prop where
  differ : a ≠ b
  radius : a = .r → b ≠ .rx ∧ b ≠ .ry

theorem Apart.set_comm {a b : ArgName} (apart : Apart a b) (apart' : Apart b a)
    (resolved : Args α) (v w : α) :
    (resolved.set a v).set b w = (resolved.set b w).set a v := by
  have differ := apart.differ
  have radius := apart.radius
  have radius' := apart'.radius
  cases a <;> cases b <;> simp_all [Args.set]

variable [Scalar α]

def IsNumber (e : Expr α) : Prop := ∃ v, e.constantValue = .ok (.number v)

def assign (resolved : Args α) (arg : ArgName × Expr α) : Args α :=
  match arg.2.constantValue with
  | .ok (.number v) => resolved.set arg.1 v
  | _ => resolved

theorem foldArgs_iff {start a : Args α} :
    foldArgs start args = .ok a ↔ (∀ arg ∈ args, IsNumber arg.2) ∧ args.foldl assign start = a := by
  induction args generalizing start with
  | nil => simp [foldArgs]
  | cons arg rest ih =>
    rw [List.forall_mem_cons, List.foldl_cons]
    cases value : arg.2.constantValue with
    | error fault => simp [foldArgs, IsNumber, value]
    | ok v =>
      cases v with
      | number v => simp [foldArgs, assign, IsNumber, value, ih]
      | _ => simp [foldArgs, IsNumber, value]

/-- What an operator asks, of the arguments as a set. -/
structure Valid (op : Operator) (args : List (ArgName × Expr α)) (flags : Flags) : Prop where
  accepted : ∀ arg ∈ args, op.accepts arg.1 = true
  distinct : (args.map Prod.fst).Nodup
  single : ∀ arg ∈ args, Single arg.2
  flags : flags.Among op.acceptedFlags
  shaped : Shaped op args
  numbers : (∀ arg ∈ args, arg.2.isConstant = true) → ∀ arg ∈ args, IsNumber arg.2

def constants (args : List (ArgName × Expr α)) : Option (Args α) :=
  if args.all fun arg => arg.2.isConstant then some (args.foldl assign .zero) else none

theorem constantArgs_iff {c : Option (Args α)} :
    constantArgs args = .ok c ↔
      ((∀ arg ∈ args, arg.2.isConstant = true) → ∀ arg ∈ args, IsNumber arg.2) ∧
      constants args = c := by
  unfold constantArgs constants
  split
  case isTrue constant =>
    have all : ∀ arg ∈ args, arg.2.isConstant = true := List.all_eq_true.mp constant
    constructor
    · intro made
      cases folded : foldArgs .zero args with
      | error p =>
        rw [folded] at made
        cases made
      | ok a =>
        rw [folded] at made
        cases made
        have calculated := foldArgs_iff.mp folded
        exact ⟨fun _ => calculated.1, congrArg some calculated.2⟩
    · rintro ⟨numbers, rfl⟩
      rw [foldArgs_iff.mpr ⟨numbers all, rfl⟩]
      rfl
  case isFalse varying =>
    rw [Except.ok.injEq]
    apply (and_iff_right _).symm
    intro all
    exact absurd (List.all_eq_true.mpr all) varying

theorem bind_eq_ok {β γ : Type} {x : Except Problem β} {f : β → Except Problem γ} {c : γ} :
    (x >>= f) = .ok c ↔ ∃ b, x = .ok b ∧ f b = .ok c := by
  cases x <;> simp [bind, Except.bind]

theorem make_iff {o : Op α} :
    make op args flags = .ok o ↔
      Valid op args flags ∧ ⟨op, args, flags, cubic op args, constants args⟩ = o := by
  have steps : make op args flags = .ok o ↔
      checkArgs op [] args = .ok () ∧ flags.within op.acceptedFlags = true ∧
      checkShape op args = .ok () ∧
      ∃ c, constantArgs args = .ok c ∧ ⟨op, args, flags, cubic op args, c⟩ = o := by
    unfold make
    cases flags.within op.acceptedFlags with
    | false => simp [bind_eq_ok, throw, throwThe, MonadExceptOf.throw]
    | true => simp [bind_eq_ok, pure, Except.pure, Unique.exists_iff]
  rw [steps, checkArgs_iff, Flags.within_iff, checkShape_iff]
  constructor
  · rintro ⟨⟨each, distinct⟩, among, shaped, c, made, rfl⟩
    obtain ⟨numbers, rfl⟩ := constantArgs_iff.mp made
    exact ⟨⟨fun arg h => (each arg h).1, distinct, fun arg h => (each arg h).2.2, among, shaped,
      numbers⟩, rfl⟩
  · rintro ⟨valid, rfl⟩
    have each : ∀ arg ∈ args, op.accepts arg.1 = true ∧ arg.1 ∉ [] ∧ Single arg.2 :=
      fun arg h => ⟨valid.accepted arg h, List.not_mem_nil, valid.single arg h⟩
    exact ⟨⟨each, valid.distinct⟩, valid.flags, valid.shaped, _,
      constantArgs_iff.mpr ⟨valid.numbers, rfl⟩, rfl⟩

/-- Arguments that pass the checks write different numbers. -/
theorem Valid.apart (valid : Valid op args flags) {x y : ArgName × Expr α} (hx : x ∈ args)
    (hy : y ∈ args) (differ : x.1 ≠ y.1) : Apart x.1 y.1 where
  differ := differ
  radius := by
    intro circular
    have radii := valid.shaped.radii valid.accepted (circular ▸ List.mem_map_of_mem hx)
    exact ⟨fun rx => radii.1 (rx ▸ List.mem_map_of_mem hy),
      fun ry => radii.2 (ry ▸ List.mem_map_of_mem hy)⟩

theorem Valid.assign_comm (valid : Valid op args flags) {x y : ArgName × Expr α} (hx : x ∈ args)
    (hy : y ∈ args) (a : Args α) : assign (assign a x) y = assign (assign a y) x := by
  by_cases differ : x.1 = y.1
  · have same : x = y := List.inj_on_of_nodup_map valid.distinct hx hy differ
    rw [same]
  · have apart := valid.apart hx hy differ
    have apart' := valid.apart hy hx (Ne.symm differ)
    unfold assign
    split <;> split
    · exact apart.set_comm apart' a _ _
    all_goals rfl

theorem Valid.constants_perm (valid : Valid op args flags) (order : args.Perm args') :
    constants args = constants args' := by
  have folded := order.foldl_eq' (fun x hx y hy a => valid.assign_comm hx hy a) Args.zero
  unfold constants
  rw [folded, order.all_eq]

theorem Valid.perm (valid : Valid op args flags) (order : args.Perm args') :
    Valid op args' flags where
  accepted arg h := valid.accepted arg (order.mem_iff.mpr h)
  distinct := (order.map Prod.fst).nodup_iff.mp valid.distinct
  single arg h := valid.single arg (order.mem_iff.mpr h)
  flags := valid.flags
  shaped := valid.shaped.perm order
  numbers constant arg h :=
    valid.numbers (fun arg h => constant arg (order.mem_iff.mp h)) arg (order.mem_iff.mpr h)

theorem make_toOption_of_valid (valid : Valid op args flags) :
    (make op args flags).toOption = some ⟨op, args, flags, cubic op args, constants args⟩ := by
  rw [make_iff.mpr ⟨valid, rfl⟩]
  rfl

theorem make_toOption_of_not_valid (invalid : ¬Valid op args flags) :
    (make op args flags).toOption = none := by
  cases made : make op args flags with
  | error p => rfl
  | ok o => exact absurd (make_iff.mp made).1 invalid

/-- An operator is made of just the arguments that it takes as a set, and their order
decides neither whether it is made nor what is told of it. -/
theorem makes_any_order (op : Operator) (args : List (ArgName × Expr α)) (flags : Flags) :
    ((∃ o, make op args flags = .ok o) ↔ Valid op args flags) ∧
    ∀ args', args.Perm args' →
      (make op args' flags).toOption.map (fun o => (o.isCubic, o.constant)) =
        (make op args flags).toOption.map fun o => (o.isCubic, o.constant) := by
  refine ⟨by simp [make_iff], ?_⟩
  intro args' order
  by_cases valid : Valid op args flags
  · rw [make_toOption_of_valid valid, make_toOption_of_valid (valid.perm order),
      Option.map_some, Option.map_some, cubic_perm order, valid.constants_perm order]
  · have invalid : ¬Valid op args' flags := fun valid' => valid (valid'.perm order.symm)
    rw [make_toOption_of_not_valid valid, make_toOption_of_not_valid invalid]

def ellipse : List (ArgName × Expr Rat) :=
  [(.rx, Sample.number 2), (.x, Sample.number 1), (.ry, Sample.number 3)]

theorem makes_any_order_ellipse :
    ellipse.Perm ellipse.reverse ∧ Valid .arcTo ellipse .arc ∧
    (make .arcTo ellipse.reverse .arc).toOption.map (fun o => (o.isCubic, o.constant)) =
      some (false, some ⟨1, 0, 0, 0, 0, 0, 2, 3, 0⟩) := by
  have order : ellipse.Perm ellipse.reverse := (List.reverse_perm ellipse).symm
  have same := makes_any_order .arcTo ellipse .arc
  have made : make .arcTo ellipse .arc =
      .ok ⟨.arcTo, ellipse, .arc, false, some ⟨1, 0, 0, 0, 0, 0, 2, 3, 0⟩⟩ := rfl
  refine ⟨order, same.1.mp ⟨_, made⟩, ?_⟩
  rw [same.2 _ order, made]
  rfl

end Op

end ShapeGrammar.Path
