import ShapeGrammar.Proofs.Restoration

/-!
# What a view shows

Through a view the stack is a list of slots, innermost first. A lookup finds the
first slot of its name in that list, and the view that a binding had where it
was declared shows exactly what comes after it.
-/

set_option autoImplicit false

namespace ShapeGrammar

variable {α : Type}

/-- The first slot of a name, with the slots behind it. -/
def Slot.search (name : String) : List (Slot α) → Option (Slot α × List (Slot α))
  | [] => none
  | x :: rest => if x.name = name then some (x, rest) else search name rest

theorem Slot.search_append (name : String) (xs ys : List (Slot α)) :
    search name (xs ++ ys) =
      ((search name xs).map fun found => (found.1, found.2 ++ ys)).or (search name ys) := by
  induction xs with
  | nil => simp [search]
  | cons x rest ih =>
    simp only [List.cons_append, search]
    split
    · rfl
    · exact ih

namespace Stack

/-- The slots below `top`, but not below `first`, the uppermost first. -/
def below (slots : Array (Slot α)) (first : Nat) : Nat → List (Slot α)
  | 0 => []
  | i + 1 => if i < first then [] else slots[i]?.toList ++ below slots first i

def window (s : Stack α) (w : Window) : List (Slot α) :=
  below s.slots w.first (w.stop.within s.height)

def visible (s : Stack α) : View → List (Slot α)
  | .full => s.window ⟨0, none⟩
  | .lexical args scope globalsEnd =>
    s.window args ++ (s.window scope ++ s.window ⟨0, globalsEnd⟩)

def frameNames (s : Stack α) : List String :=
  (below s.slots s.frameStart s.height).map Slot.name

/-! ### Searching -/

theorem search_below_none {slots : Array (Slot α)} {name : String} {first top : Nat}
    (h : findBelow slots name first top = none) :
    Slot.search name (below slots first top) = none := by
  fun_induction findBelow slots name first top with
  | case1 => rfl
  | case2 i hi => simp [below, hi, Slot.search]
  | case3 i hi found => cases h
  | case4 i hi missed ih =>
    rw [below, if_neg hi, Slot.search_append, ih h]
    cases hslot : slots[i]? with
    | none => rfl
    | some slot =>
      simp only [hslot, Option.any_some, beq_iff_eq] at missed
      simp [Slot.search, missed]

theorem search_below_some {slots : Array (Slot α)} {name : String} {first top i : Nat}
    (h : findBelow slots name first top = some i) :
    first ≤ i ∧ i < top ∧ ∃ slot, slots[i]? = some slot ∧ slot.name = name ∧
      Slot.search name (below slots first top) = some (slot, below slots first i) := by
  fun_induction findBelow slots name first top with
  | case1 => cases h
  | case2 i hi => cases h
  | case3 j hj found =>
    cases h
    obtain ⟨slot, hslot⟩ : ∃ slot, slots[i]? = some slot := by
      cases hslot : slots[i]? with
      | none => simp [hslot] at found
      | some slot => exact ⟨slot, rfl⟩
    have hname : slot.name = name := by simpa [hslot] using found
    refine ⟨Nat.le_of_not_lt hj, Nat.lt_succ_self i, slot, hslot, hname, ?_⟩
    simp [below, hj, hslot, Slot.search, hname]
  | case4 j hj missed ih =>
    obtain ⟨lower, upper, slot, hslot, hname, search⟩ := ih h
    refine ⟨lower, Nat.lt_succ_of_lt upper, slot, hslot, hname, ?_⟩
    rw [below, if_neg hj, Slot.search_append, search]
    cases hother : slots[j]? with
    | none => rfl
    | some other =>
      simp only [hother, Option.any_some, beq_iff_eq] at missed
      simp [Slot.search, missed]

theorem search_below_of_getElem? {slots : Array (Slot α)} {first top i : Nat} {slot : Slot α}
    (hslot : slots[i]? = some slot) (lower : first ≤ i) (upper : i < top) :
    findBelow slots slot.name first top ≠ none := by
  induction top with
  | zero => omega
  | succ top ih =>
    rw [findBelow, if_neg (by omega)]
    split
    · exact nofun
    case isFalse missed =>
      refine ih ?_
      rcases Nat.lt_or_eq_of_le (Nat.le_of_lt_succ upper) with h | h
      · exact h
      · subst h
        simp [hslot] at missed

theorem window_empty (s : Stack α) : s.window .empty = [] := rfl

theorem window_stop (s : Stack α) (first : Nat) {i : Nat} (hi : i ≤ s.height) :
    s.window ⟨first, some i⟩ = below s.slots first i := by
  simp [window, Position.within, Nat.min_eq_left hi]

/-- A slot found in a window is in it, and the window up to the slot shows what
comes after it. -/
theorem findIn_some {s : Stack α} {name : String} {w : Window} {i : Nat}
    (h : s.findIn name w = some i) :
    w.contains (some i) = true ∧ i < s.height ∧ ∃ slot, s.slots[i]? = some slot ∧
      slot.name = name ∧
      Slot.search name (s.window w) = some (slot, s.window ⟨w.first, some i⟩) := by
  obtain ⟨lower, upper, slot, hslot, hname, search⟩ := search_below_some h
  have hi : i < s.height := by
    unfold Position.within at upper
    split at upper <;> omega
  refine ⟨?_, hi, slot, hslot, hname, ?_⟩
  · unfold Position.within at upper
    cases hstop : w.stop with
    | none => simp [Window.contains, lower, hstop]
    | some stop =>
      rw [hstop] at upper
      simp only [Window.contains, lower, hstop, Option.all_some, decide_true, Bool.true_and,
        decide_eq_true_eq]
      exact Nat.lt_of_lt_of_le upper (Nat.min_le_left _ _)
  · rw [window_stop s w.first (Nat.le_of_lt hi)]
    exact search

/-- A window in which a name is not found contains no slot of that name. -/
theorem not_contains_of_findIn {s : Stack α} {name : String} {w : Window} {i : Nat} {slot : Slot α}
    (h : s.findIn name w = none) (hslot : s.slots[i]? = some slot) (hname : slot.name = name) :
    w.contains (some i) = false := by
  refine Bool.eq_false_iff.mpr fun hcontains => ?_
  simp only [Window.contains, Bool.and_eq_true, decide_eq_true_eq] at hcontains
  obtain ⟨lower, upper⟩ := hcontains
  have hi : i < s.height := (Array.getElem?_eq_some_iff.mp hslot).1
  refine search_below_of_getElem? hslot lower ?_ (hname ▸ h)
  unfold Position.within
  cases hstop : w.stop with
  | none => exact hi
  | some stop =>
    rw [hstop] at upper
    simp only [Option.all_some, decide_eq_true_eq] at upper
    exact Nat.lt_min.mpr ⟨upper, hi⟩

theorem search_window_none {s : Stack α} {name : String} {w : Window}
    (h : s.findIn name w = none) : Slot.search name (s.window w) = none :=
  search_below_none h

theorem search_visible_none {s : Stack α} {name : String} {v : View}
    (h : s.find name v = none) : Slot.search name (s.visible v) = none := by
  cases v with
  | full => exact search_window_none h
  | lexical args scope globalsEnd =>
    simp only [find, Option.or_eq_none_iff] at h
    simp [visible, Slot.search_append, search_window_none h.1, search_window_none h.2.1,
      search_window_none h.2.2]

theorem search_visible_some {s : Stack α} {name : String} {v : View} {i : Nat}
    (h : s.find name v = some i) :
    ∃ slot, s.slots[i]? = some slot ∧ slot.name = name ∧
      Slot.search name (s.visible v) = some (slot, s.visible (v.before (some i))) := by
  cases v with
  | full =>
    obtain ⟨-, -, slot, hslot, hname, search⟩ := findIn_some h
    exact ⟨slot, hslot, hname, by simpa [visible, View.before, View.cut, window_empty] using search⟩
  | lexical args scope globalsEnd =>
    simp only [find] at h
    cases hargs : s.findIn name args with
    | some j =>
      rw [hargs] at h
      cases h
      obtain ⟨hcontains, -, slot, hslot, hname, search⟩ := findIn_some hargs
      refine ⟨slot, hslot, hname, ?_⟩
      simp [visible, Slot.search_append, search, View.before, View.cut, hcontains]
    | none =>
      rw [hargs, Option.none_or] at h
      cases hscope : s.findIn name scope with
      | some j =>
        rw [hscope] at h
        cases h
        obtain ⟨hcontains, -, slot, hslot, hname, search⟩ := findIn_some hscope
        refine ⟨slot, hslot, hname, ?_⟩
        simp [visible, Slot.search_append, search, search_window_none hargs, View.before, View.cut,
          hcontains, not_contains_of_findIn hargs hslot hname, window_empty]
      | none =>
        rw [hscope, Option.none_or] at h
        obtain ⟨hcontains, hi, slot, hslot, hname, search⟩ := findIn_some h
        refine ⟨slot, hslot, hname, ?_⟩
        have lower : Position.lower (some i) globalsEnd = some i := by
          cases globalsEnd with
          | none => rfl
          | some stop =>
            simp only [Window.contains, Nat.zero_le, decide_true, Option.all_some, Bool.true_and,
              decide_eq_true_eq] at hcontains
            exact congrArg some (Nat.min_eq_left (Nat.le_of_lt hcontains))
        simp [visible, Slot.search_append, search, search_window_none hargs,
          search_window_none hscope, View.before, View.cut, not_contains_of_findIn hargs hslot hname,
          not_contains_of_findIn hscope hslot hname, window_empty, lower]

/-- A lookup finds the first visible slot of its name. -/
theorem lookup_eq_search (s : Stack α) (name : String) (v : View) :
    (s.lookup name v).map (fun found => (found.2, s.visible (v.before (some found.1)))) =
      (Slot.search name (s.visible v)).map fun found => (found.1.binding, found.2) := by
  cases h : s.find name v with
  | none => simp [lookup, h, search_visible_none h]
  | some i =>
    obtain ⟨slot, hslot, -, search⟩ := search_visible_some h
    simp [lookup, h, hslot, search]

theorem find_of_search {s : Stack α} {name : String} {v : View} {x : Slot α}
    {rest : List (Slot α)} (h : Slot.search name (s.visible v) = some (x, rest)) :
    ∃ i, s.find name v = some i ∧ s.slots[i]? = some x ∧ s.visible (v.before (some i)) = rest := by
  cases found : s.find name v with
  | none =>
    rw [search_visible_none found] at h
    cases h
  | some i =>
    obtain ⟨slot, hslot, -, search⟩ := search_visible_some found
    rw [search] at h
    cases h
    exact ⟨i, rfl, hslot, rfl⟩

theorem lookup_of_find {s : Stack α} {name : String} {v : View} {i : Nat} {x : Slot α}
    (found : s.find name v = some i) (hslot : s.slots[i]? = some x) :
    s.lookup name v = some (i, x.binding) := by
  simp [lookup, found, hslot]

theorem lookup_of_search {s : Stack α} {name : String} {v : View} {x : Slot α}
    {rest : List (Slot α)} (h : Slot.search name (s.visible v) = some (x, rest)) :
    ∃ i, s.lookup name v = some (i, x.binding) ∧ s.visible (v.before (some i)) = rest := by
  obtain ⟨i, found, hslot, behind⟩ := find_of_search h
  exact ⟨i, lookup_of_find found hslot, behind⟩

/-! ### Growing -/

theorem below_extend (s : Stack α) (extra : List (Slot α)) (first : Nat) {top : Nat}
    (h : top ≤ s.height) : below (s.extend extra).slots first top = below s.slots first top := by
  induction top with
  | zero => rfl
  | succ top ih =>
    have same : (s.extend extra).slots[top]? = s.slots[top]? :=
      Array.getElem?_append_left h
    rw [below, below, same, ih (by omega)]

theorem below_self (slots : Array (Slot α)) (top : Nat) : below slots top top = [] := by
  cases top <;> simp [below]

theorem below_push (s : Stack α) (x : Slot α) {first : Nat} (h : first ≤ s.height) :
    below (s.extend [x]).slots first (s.height + 1) = x :: below s.slots first s.height := by
  have last : (s.extend [x]).slots[s.height]? = some x := by
    simp [extend, height]
  rw [below, if_neg (by omega), last, below_extend s [x] first (Nat.le_refl _)]
  rfl

theorem length_below {slots : Array (Slot α)} {first top : Nat} (h : top ≤ slots.size) :
    (below slots first top).length = top - first := by
  induction top with
  | zero => simp [below]
  | succ top ih =>
    rw [below]
    split
    · simp
      omega
    · rw [Array.getElem?_eq_getElem (by omega)]
      simp only [Option.toList_some, List.singleton_append, List.length_cons, ih (by omega)]
      omega

theorem window_extend (s : Stack α) (x : Slot α) (first : Nat) {stop : Nat}
    (h : stop ≤ s.height) :
    (s.extend [x]).window ⟨first, some stop⟩ = s.window ⟨first, some stop⟩ := by
  rw [window_stop _ first (by rw [height_extend]; omega), window_stop s first h,
    below_extend s [x] first h]

end Stack

/-- A view through which statements run, on a stack of that height: it shows every
slot that is pushed, and globals that are all there. -/
inductive View.Open (height : Nat) : View → Prop
  | full : Open height .full
  | rule {base globalsEnd : Nat} (hbase : base ≤ height) (hglobals : globalsEnd ≤ height) :
      Open height (.rule base (some globalsEnd))

theorem View.Open.mono {height taller : Nat} {v : View} (h : Open height v)
    (hle : height ≤ taller) : Open taller v := by
  cases h with
  | full => exact .full
  | rule hbase hglobals => exact .rule (Nat.le_trans hbase hle) (Nat.le_trans hglobals hle)

namespace Stack

theorem visible_push (s : Stack α) {v : View} (h : v.Open s.height) (x : Slot α) :
    (s.extend [x]).visible v = x :: s.visible v := by
  have whole : ∀ first, first ≤ s.height →
      (s.extend [x]).window ⟨first, none⟩ = x :: s.window ⟨first, none⟩ := by
    intro first hfirst
    rw [window, window, Position.within, height_extend]
    exact below_push s x hfirst
  cases h with
  | full => exact whole 0 (Nat.zero_le _)
  | rule hbase hglobals =>
    simp only [visible, View.rule, whole _ hbase, window_extend s x 0 hglobals, window_empty,
      List.nil_append, List.cons_append]

theorem visible_pushFrame (s : Stack α) (v : View) : s.pushFrame.visible v = s.visible v := by
  cases v <;> rfl

/-- A rule sees the globals and nothing else when it begins. -/
theorem visible_rule (s : Stack α) {globalsEnd : Nat} (h : globalsEnd ≤ s.height) :
    s.visible (.rule s.height (some globalsEnd)) = below s.slots 0 globalsEnd := by
  have scope : s.window ⟨s.height, none⟩ = [] := below_self s.slots s.height
  simp only [visible, View.rule, scope, window_empty, List.nil_append, window_stop s 0 h]

/-! ### Frames -/

theorem search_isSome (name : String) (xs : List (Slot α)) :
    (Slot.search name xs).isSome = true ↔ name ∈ xs.map Slot.name := by
  induction xs with
  | nil => simp [Slot.search]
  | cons x rest ih =>
    rw [Slot.search]
    split
    case isTrue h => simp [h]
    case isFalse h => simp [ih, Ne.symm h]

theorem isTaken_iff (s : Stack α) (name : String) :
    s.isTaken name = true ↔ name ∈ s.frameNames := by
  rw [isTaken, frameNames, ← search_isSome]
  cases h : findBelow s.slots name s.frameStart s.height with
  | none => simp [search_below_none h]
  | some i =>
    obtain ⟨-, -, slot, -, -, search⟩ := search_below_some h
    simp [search]

theorem frameNames_pushFrame (s : Stack α) : s.pushFrame.frameNames = [] := by
  have start : s.pushFrame.frameStart = s.height := by simp [pushFrame, frameStart]
  have height : s.pushFrame.height = s.height := rfl
  rw [frameNames, start, height, below_self, List.map_nil]

theorem frameStart_pushFrame (s : Stack α) : s.pushFrame.frameStart ≤ s.pushFrame.height := by
  simp [pushFrame, frameStart, height]

theorem frameNames_push (s : Stack α) (h : s.frameStart ≤ s.height) (x : Slot α) :
    (s.extend [x]).frameNames = x.name :: s.frameNames := by
  rw [frameNames, height_extend]
  exact congrArg (List.map Slot.name) (below_push s x h)

theorem frameSize_eq (s : Stack α) : s.frameSize = s.frameNames.length := by
  rw [frameSize, frameNames, List.length_map]
  exact (length_below (Nat.le_refl s.slots.size)).symm

structure Framed (s s' : Stack α) : Prop where
  start : s.frameStart ≤ s.height
  start' : s'.frameStart ≤ s'.height
  names : s.frameNames = s'.frameNames

namespace Framed

variable {s s' : Stack α}

theorem push (h : s.Framed s') {x x' : Slot α} (name : x.name = x'.name) :
    (s.extend [x]).Framed (s'.extend [x']) where
  start := by
    rw [height_extend]
    exact Nat.le_trans h.start (Nat.le_add_right _ _)
  start' := by
    rw [height_extend]
    exact Nat.le_trans h.start' (Nat.le_add_right _ _)
  names := by rw [frameNames_push s h.start, frameNames_push s' h.start', name, h.names]

theorem pushFrame (s s' : Stack α) : s.pushFrame.Framed s'.pushFrame where
  start := s.frameStart_pushFrame
  start' := s'.frameStart_pushFrame
  names := by rw [frameNames_pushFrame, frameNames_pushFrame]

theorem isTaken (h : s.Framed s') (name : String) : s.isTaken name = s'.isTaken name := by
  rw [Bool.eq_iff_iff, isTaken_iff, isTaken_iff, h.names]

theorem frameSize (h : s.Framed s') : s.frameSize = s'.frameSize := by
  rw [frameSize_eq, frameSize_eq, h.names]

end Framed

end Stack

end ShapeGrammar
