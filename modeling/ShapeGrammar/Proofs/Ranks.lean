import Mathlib.Data.List.FinRange
import Mathlib.Data.List.Sort
import Mathlib.Logic.Equiv.Fin.Rotate
import ShapeGrammar.Proofs.Sample
import ShapeGrammar.Proofs.Uses

/-!
# Terms by rank

A bundle without an order of its own takes its terms by rank, and of one rank as
they are written: this is the stable sort of its terms. So it makes no difference
where terms of different ranks stand. Neither what the bundle comes to nor what it
asks of its environment on the way depends on it.
-/

set_option autoImplicit false

namespace ShapeGrammar

namespace Bundle

variable {α : Type}

def ofRank (r : Nat) (terms : List (Term α)) : List (Term α) :=
  terms.filter fun t => t.kind.rank == r

@[simp] theorem mem_ofRank {r : Nat} {terms : List (Term α)} {t : Term α} :
    t ∈ ofRank r terms ↔ t ∈ terms ∧ t.kind.rank = r := by
  simp [ofRank]

theorem ofRank_cons (r : Nat) (t : Term α) (terms : List (Term α)) :
    ofRank r (t :: terms) = if t.kind.rank = r then t :: ofRank r terms else ofRank r terms := by
  by_cases h : t.kind.rank = r <;> simp [ofRank, h]

theorem byRank_eq (terms : List (Term α)) :
    byRank terms = TermKind.ranks.flatMap fun r => ofRank r terms := rfl

/-! ### The stable sort -/

theorem ofRank_ofRank (r r' : Nat) (terms : List (Term α)) :
    ofRank r (ofRank r' terms) = if r' = r then ofRank r terms else [] := by
  split
  case isTrue same =>
    subst same
    simp [ofRank]
  case isFalse other =>
    apply List.eq_nil_iff_forall_not_mem.mpr
    intro t found
    obtain ⟨⟨-, here⟩, there⟩ := by simpa using found
    exact other (here.symm.trans there)

theorem ofRank_byRank (r : Nat) (terms : List (Term α)) :
    ofRank r (byRank terms) = ofRank r terms := by
  by_cases known : r ∈ TermKind.ranks
  · have pieces : ofRank r (byRank terms) =
        TermKind.ranks.flatMap fun r' => if r' = r then ofRank r terms else [] := by
      rw [byRank_eq, ofRank, List.filter_flatMap]
      exact List.flatMap_congr fun r' _ => ofRank_ofRank r r' terms
    rw [pieces]
    simp only [TermKind.ranks, List.mem_cons, List.not_mem_nil, or_false] at known ⊢
    rcases known with rfl | rfl | rfl | rfl | rfl | rfl | rfl <;> simp
  · have none : ∀ terms : List (Term α), ofRank r terms = [] := by
      intro terms
      apply List.eq_nil_iff_forall_not_mem.mpr
      intro t found
      exact known ((mem_ofRank.mp found).2 ▸ t.kind.rank_mem_ranks)
    rw [none, none]

abbrev Sorted (terms : List (Term α)) : Prop :=
  terms.Pairwise fun a b => a.kind.rank ≤ b.kind.rank

theorem sorted_ofRank (r : Nat) (terms : List (Term α)) : Sorted (ofRank r terms) := by
  apply List.pairwise_of_forall_mem_list
  intro a ha b hb
  exact ((mem_ofRank.mp ha).2.trans (mem_ofRank.mp hb).2.symm).le

theorem sorted_byRank (terms : List (Term α)) : Sorted (byRank terms) := by
  have rising : TermKind.ranks.Pairwise (· < ·) := by decide
  rw [byRank_eq, Sorted, List.pairwise_flatMap]
  refine ⟨fun r _ => sorted_ofRank r terms, rising.imp fun {r r'} less a ha b hb => ?_⟩
  rw [(mem_ofRank.mp ha).2, (mem_ofRank.mp hb).2]
  exact less.le

/-- Terms sorted by rank are told by those of each rank. -/
theorem Sorted.eq_of_ofRank {terms terms' : List (Term α)} (sorted : Sorted terms)
    (sorted' : Sorted terms') (same : ∀ r, ofRank r terms = ofRank r terms') :
    terms = terms' := by
  have least : ∀ {t t' : Term α} {rest rest' : List (Term α)}, Sorted (t :: rest) →
      ofRank t'.kind.rank (t :: rest) = ofRank t'.kind.rank (t' :: rest') →
      t.kind.rank ≤ t'.kind.rank := by
    intro t t' rest rest' sorted same
    have here : t' ∈ ofRank t'.kind.rank (t :: rest) := by simp [same]
    rcases List.mem_cons.mp (mem_ofRank.mp here).1 with rfl | later
    · exact le_rfl
    · exact List.rel_of_pairwise_cons sorted later
  induction terms generalizing terms' with
  | nil =>
    cases terms' with
    | nil => rfl
    | cons t' rest' =>
      have none := same t'.kind.rank
      simp [ofRank] at none
  | cons t rest ih =>
    cases terms' with
    | nil =>
      have none := same t.kind.rank
      simp [ofRank] at none
    | cons t' rest' =>
      -- Either list has its least rank in front, so the first terms are of one rank.
      have equal : t.kind.rank = t'.kind.rank :=
        le_antisymm (least sorted (same _)) (least sorted' (same _).symm)
      have front := same t'.kind.rank
      rw [ofRank_cons, ofRank_cons, if_pos equal, if_pos rfl] at front
      obtain ⟨rfl, -⟩ := List.cons.inj front
      refine congrArg (t :: ·) (ih sorted.tail sorted'.tail fun r => ?_)
      have whole := same r
      rw [ofRank_cons, ofRank_cons] at whole
      split at whole
      case isTrue => exact (List.cons.inj whole).2
      case isFalse => exact whole

def rankLe (a b : Term α) : Bool := a.kind.rank ≤ b.kind.rank

theorem rankLe_trans (a b c : Term α) (hab : rankLe a b = true) (hbc : rankLe b c = true) :
    rankLe a c = true := by
  simp only [rankLe, decide_eq_true_eq] at *
  omega

theorem rankLe_total (a b : Term α) : (rankLe a b || rankLe b a) = true := by
  simpa [rankLe] using Nat.le_total a.kind.rank b.kind.rank

theorem sorted_iff {terms : List (Term α)} :
    Sorted terms ↔ terms.Pairwise fun a b => rankLe a b = true := by
  simp [rankLe]

theorem sorted_mergeSort (terms : List (Term α)) : Sorted (terms.mergeSort rankLe) :=
  sorted_iff.mpr (List.pairwise_mergeSort rankLe_trans rankLe_total terms)

theorem ofRank_mergeSort (r : Nat) (terms : List (Term α)) :
    ofRank r (terms.mergeSort rankLe) = ofRank r terms := by
  have inside : (ofRank r terms).Sublist (terms.mergeSort rankLe) :=
    List.sublist_mergeSort rankLe_trans rankLe_total (sorted_iff.mp (sorted_ofRank r terms))
      List.filter_sublist
  have kept : (ofRank r terms).Sublist (ofRank r (terms.mergeSort rankLe)) := by
    simpa [ofRank] using inside.filter fun t => t.kind.rank == r
  have counts := ((List.mergeSort_perm terms rankLe).filter
    fun t => t.kind.rank == r).length_eq
  exact (kept.eq_of_length counts.symm).symm

theorem byRank_eq_mergeSort (terms : List (Term α)) : byRank terms = terms.mergeSort rankLe := by
  refine (sorted_byRank terms).eq_of_ofRank (sorted_mergeSort terms) fun r => ?_
  rw [ofRank_byRank, ofRank_mergeSort]

/-! ### Rearrangements -/

/-- A permutation of terms that keeps the order of those of one rank. -/
structure Rearrangement (terms terms' : List (Term α)) where
  /-- Where each place of the first list is found in the second. -/
  place : Fin terms.length ≃ Fin terms'.length
  get_place : ∀ i, terms'.get (place i) = terms.get i
  place_lt : ∀ i j, i < j → (terms.get i).kind.rank = (terms.get j).kind.rank → place i < place j

def places (r : Nat) (terms : List (Term α)) : List (Fin terms.length) :=
  (List.finRange terms.length).filter fun i => (terms.get i).kind.rank == r

theorem mem_places {r : Nat} {terms : List (Term α)} {i : Fin terms.length} :
    i ∈ places r terms ↔ (terms.get i).kind.rank = r := by
  simp [places]

theorem pairwise_places (r : Nat) (terms : List (Term α)) : (places r terms).Pairwise (· < ·) :=
  (List.pairwise_lt_finRange _).filter _

theorem ofRank_eq_map (r : Nat) (terms : List (Term α)) :
    ofRank r terms = (places r terms).map terms.get := by
  conv_lhs => rw [← List.map_get_finRange terms, ofRank, List.filter_map]
  rfl

namespace Rearrangement

variable {terms terms' : List (Term α)}

theorem places_eq (h : Rearrangement terms terms') (r : Nat) :
    places r terms' = (places r terms).map h.place := by
  refine List.Pairwise.eq_of_mem_iff (pairwise_places r terms') ?_ fun i => ?_
  · rw [List.pairwise_map]
    refine (pairwise_places r terms).imp_of_mem fun {i j} hi hj less => ?_
    exact h.place_lt i j less ((mem_places.mp hi).trans (mem_places.mp hj).symm)
  · rw [mem_places, List.mem_map]
    constructor
    · intro rank
      refine ⟨h.place.symm i, mem_places.mpr ?_, h.place.apply_symm_apply i⟩
      rwa [← h.get_place, h.place.apply_symm_apply]
    · rintro ⟨j, hj, rfl⟩
      rw [h.get_place]
      exact mem_places.mp hj

theorem ofRank_eq (h : Rearrangement terms terms') (r : Nat) : ofRank r terms' = ofRank r terms := by
  rw [ofRank_eq_map, ofRank_eq_map, h.places_eq, List.map_map]
  exact List.map_congr_left fun i _ => h.get_place i

theorem byRank_eq (h : Rearrangement terms terms') : byRank terms' = byRank terms :=
  List.flatMap_congr fun r _ => h.ofRank_eq r

end Rearrangement

end Bundle

/-! ### What is asked of an environment -/

variable {ε ω α β : Type}

inductive Env.Request (α : Type) where
  | lookup (name : String) (span : Span)
  | call (name : String) (args : List (Value α)) (span : Span)
  /-- The number that was drawn. -/
  | draw (u : α)

def Attempt.noting (request : Env.Request α) (x : Attempt ε ω β) :
    Attempt ε (ω × List (Env.Request α)) β :=
  ⟨fun s => (x.run s.1).mapState fun t => (t, s.2 ++ [request])⟩

namespace Env

def recording (env : Env ε ω α) : Env ε (ω × List (Request α)) α where
  lookup name span := (env.lookup name span).noting (.lookup name span)
  call name args span := (env.call name args span).noting (.call name args span)
  draw s := (env.draw s.1).map fun drawn => (drawn.1, drawn.2, s.2 ++ [.draw drawn.1])
  raise := env.raise

def offRecord : Parting ε ε (ω × List (Request α)) ω where
  together e e' s s' := e = e' ∧ s.1 = s'
  alone _ := False

theorem noting_inStep (request : Request α) (x : Attempt ε ω β) :
    Attempt.InStep offRecord (fun s s' => s.1 = s') Eq (x.noting request) x := by
  rintro s _ rfl
  change Meets _ _ _ ((x.run s.1).mapState _) _
  cases x.run s.1 with
  | ok b t => exact .ok rfl rfl
  | failed e t => exact .together ⟨rfl, rfl⟩

theorem recording_answers (env : Env ε ω α) :
    Env.Answers offRecord (fun s s' => s.1 = s') (fun _ => True) env.recording env where
  lookup name span _ := noting_inStep _ _
  call name args span _ := noting_inStep _ _
  draw name span _ _ := by
    rintro s _ rfl
    simp only [recording]
    cases env.draw s.1 with
    | none => exact .none
    | some drawn => exact .some ⟨rfl, rfl⟩
  raise span cause _ s s' same := ⟨rfl, same⟩

/-- A record changes nothing but itself. -/
theorem exists_requests_of_meets {o : Outcome ε (ω × List (Request α)) β} {o' : Outcome ε ω β}
    (ends : Meets offRecord (fun s s' => s.1 = s') Eq o o') :
    ∃ requests, o = o'.mapState fun t => (t, requests) := by
  cases ends with
  | @ok b b' t t' value state =>
    subst value state
    exact ⟨t.2, rfl⟩
  | @together e e' t t' parted =>
    obtain ⟨rfl, rfl⟩ := parted
    exact ⟨t.2, rfl⟩
  | alone quits => exact quits.elim

variable [Scalar α]

theorem exists_requests (env : Env ε ω α) (b : Bundle α) (s : ω) :
    ∃ requests, (env.recording.evalBundle b).run (s, []) =
      ((env.evalBundle b).run s).mapState fun t => (t, requests) :=
  exists_requests_of_meets (env.recording_answers.evalBundle b (fun _ _ => trivial) (s, []) s rfl)

/-- The terms of a bundle without an order of its own are taken in the order of a
stable sort, however they are arranged. The bundle comes to the same adjustment or
the same failure in the same state, and asks the same of its environment in the
same order. -/
theorem evalBundle_rearranged {terms terms' : List (Term α)}
    (h : Bundle.Rearrangement terms terms') (env : Env ε ω α) (s : ω) :
    (⟨terms', false⟩ : Bundle α).sequence = terms.mergeSort Bundle.rankLe ∧
    (env.evalBundle ⟨terms', false⟩).run s = (env.evalBundle ⟨terms, false⟩).run s ∧
    ∃ requests,
      (env.recording.evalBundle ⟨terms, false⟩).run (s, []) =
        ((env.evalBundle ⟨terms, false⟩).run s).mapState (fun t => (t, requests)) ∧
      (env.recording.evalBundle ⟨terms', false⟩).run (s, []) =
        ((env.evalBundle ⟨terms', false⟩).run s).mapState (fun t => (t, requests)) := by
  have sequence : (⟨terms', false⟩ : Bundle α).sequence = (⟨terms, false⟩ : Bundle α).sequence :=
    h.byRank_eq
  have same : ∀ {ε ω : Type} (env : Env ε ω α),
      env.evalBundle ⟨terms', false⟩ = env.evalBundle ⟨terms, false⟩ := by
    intro ε ω env
    rw [evalBundle, evalBundle, sequence]
  obtain ⟨requests, recorded⟩ := env.exists_requests ⟨terms, false⟩ s
  refine ⟨h.byRank_eq.trans (Bundle.byRank_eq_mergeSort terms), by rw [same], requests, recorded, ?_⟩
  rw [same, same, recorded]

end Env

namespace Sample

def left (kind : TermKind) : Term Rat := ⟨kind, [chance], .none⟩

def hueFirst : List (Term Rat) := [left .hue, left .x, left .y]

def hueLast : List (Term Rat) := [left .x, left .y, left .hue]

def hueMoved : Bundle.Rearrangement hueFirst hueLast where
  place := (finRotate 3).symm
  get_place
    | ⟨0, _⟩ => rfl
    | ⟨1, _⟩ => rfl
    | ⟨2, _⟩ => rfl
  place_lt := by decide

end Sample

theorem Env.evalBundle_rearranged_sample :
    ((Session.environmentAt 0 : Env Stop (Session Unit Rat) Rat).evalBundle
        ⟨Sample.hueLast, false⟩).run (.begin 0 .empty ()) =
      ((Session.environmentAt 0).evalBundle ⟨Sample.hueFirst, false⟩).run (.begin 0 .empty ()) :=
  (Env.evalBundle_rearranged Sample.hueMoved _ _).2.1

end ShapeGrammar
