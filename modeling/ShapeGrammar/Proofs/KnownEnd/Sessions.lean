import ShapeGrammar.Proofs.SameStack.Expansion
import ShapeGrammar.Proofs.Quiet

/-!
# Two runs, one of them known to its end

Two sessions run the same statements of a quiet grammar. They have the same in sight, but
the second may start from a store that holds what the first has yet to work out. It finds
the right things there if the first is known to end within that store. Whatever is kept stays kept, so that what
is known of the first run at its end is known of it from the beginning.
-/

set_option autoImplicit false

namespace ShapeGrammar

open Attempt

variable {σ α β γ : Type}

/-! ### Stores that grow -/

structure Store.Within (a b : Store α) : Prop where
  values : ∀ place v, a.values.lookup place = some v → b.values.lookup place = some v
  paths : ∀ place p, a.paths.lookup place = some p → b.paths.lookup place = some p

theorem Store.Within.refl (a : Store α) : a.Within a := ⟨fun _ _ => id, fun _ _ => id⟩

theorem Store.Within.trans {a b c : Store α} (h : a.Within b) (h' : b.Within c) : a.Within c where
  values place v found := h'.values place v (h.values place v found)
  paths place p found := h'.paths place p (h.paths place p found)

/-- A new entry hides nothing that was found where its key was not. -/
theorem lookup_cons_of_missed {κ β : Type} [BEq κ] [LawfulBEq κ] {entries later : List (κ × β)}
    {key other : κ} {b c : β} (missed : entries.lookup key = none)
    (found : entries.lookup other = some c) (still : later.lookup other = some c) :
    ((key, b) :: later).lookup other = some c := by
  rw [List.lookup_cons]
  split
  case h_1 same =>
    rw [beq_iff_eq.mp same, missed] at found
    cases found
  case h_2 => exact still

theorem Store.within_keep {a : Store α} {place : Address} (missed : a.values.lookup place = none)
    (v : Value α) : a.Within (a.keep place v) where
  values _ _ found := lookup_cons_of_missed missed found found
  paths _ _ := id

namespace Action

/-- Whatever is kept stays kept, however the action ends. -/
def Forward (x : Action σ α β) : Prop :=
  ∀ s : Session σ α, s.store.Within (x.run s).state.store

theorem forward_of_store {x : Action σ α β} (h : ∀ s, (x.run s).state.store = s.store) :
    Forward x := by
  intro s
  rw [h s]
  exact .refl _

theorem Forward.bind {x : Action σ α β} {f : β → Action σ α γ} (hx : Forward x)
    (hf : ∀ b, Forward (f b)) : Forward (x >>= f) := by
  intro s
  have first := hx s
  rw [run_bind]
  generalize x.run s = o at first ⊢
  cases o with
  | ok b t => exact first.trans (hf b t)
  | failed e t => exact first

theorem forward_of_state {f : Session σ α → Action σ α β} (hf : ∀ s, Forward (f s)) :
    Forward (Attempt.state >>= f) :=
  fun s => hf s s

theorem Forward.wrap {before : Session σ α → Session σ α}
    {after : Session σ α → Session σ α → Session σ α} {w x : Action σ α β} (h : Forward x)
    (hw : Wraps before after w x) (enter : ∀ s, (before s).store = s.store)
    (leave : ∀ s t, (after s t).store = t.store) : Forward w := by
  intro s
  have inside := h (before s)
  rw [enter] at inside
  rw [hw s]
  generalize x.run (before s) = o at inside ⊢
  cases o with
  | ok b t => exact (leave s t).symm ▸ inside
  | failed e t => exact (leave s t).symm ▸ inside

end Action

/-! ### Pairs of runs -/

/-- What is the same in two sessions, and what is known of the first. -/
structure Pairing (σ α : Type) where
  /-- Do the sessions have one number? -/
  numbered : Prop
  random : Random
  random' : Random
  /-- How the stores and the states of the renderer belong together. -/
  tied : Store α → σ → Store α → σ → Prop
  /-- The first store may come to what it is going to be. -/
  going : Store α → Prop
  /-- The first store is what it was going to be. -/
  ended : Store α → Prop
  back : ∀ a b, a.Within b → going b → going a
  stops : ∀ a, ended a → going a

namespace Pairing

structure Rest (k : Pairing σ α) (s s' : Session σ α) : Prop where
  random : s.random = k.random
  random' : s'.random = k.random'
  globalsEnd : s.globalsEnd = s'.globalsEnd
  depth : s.depth = s'.depth
  building : Option.Rel (Path.Compiled.Kin k.numbered) s.building s'.building
  tied : k.tied s.store s.renderer s'.store s'.renderer

abbrev Holds (k : Pairing σ α) : Session σ α → Session σ α → Prop := Muted k.numbered k.Rest

variable {k : Pairing σ α}

theorem unmoved : Unmoved k.Rest := fun _ _ h _ _ _ _ => { h with }

/-- The outcome leads to what is known of the end. -/
def Heads (k : Pairing σ α) (o : Outcome Stop (Session σ α) β) : Prop :=
  o.Ends (fun t => k.going t.store) fun _ t => k.ended t.store

/-- The second action ends as the first does, where this one leads to the known end. -/
structure Foresees (k : Pairing σ α) (x y : Action σ α β) : Prop where
  forward : x.Forward
  meets : ∀ s s', k.Holds s s' → k.Heads (x.run s) →
    Meets (Parting.alike k.Holds) k.Holds Eq (x.run s) (y.run s')

theorem goes {x : Action σ α β} (forward : x.Forward) {s : Session σ α}
    (heads : k.Heads (x.run s)) : k.going s.store := by
  have grows := forward s
  generalize x.run s = o at heads grows
  cases o with
  | ok b t => exact k.back _ _ grows heads
  | failed e t => exact k.back _ _ grows (k.stops _ heads)

namespace Foresees

variable {x y : Action σ α β} {f g : β → Action σ α γ}

theorem andThen (hx : k.Foresees x y) (hf : ∀ b, k.Foresees (f b) (g b)) :
    k.Foresees (x >>= f) (y >>= g) where
  forward := hx.forward.bind fun b => (hf b).forward
  meets s s' hs heads := by
    have first := hx.meets s s' hs
    rw [run_bind] at heads
    rw [run_bind, run_bind]
    generalize x.run s = o at first heads ⊢
    generalize y.run s' = o' at first ⊢
    cases o with
    | failed e t =>
      cases first heads with
      | together parted => exact .together parted
      | alone never => exact never.elim
    | ok b t =>
      cases first (goes (hf b).forward heads) with
      | ok value state =>
        cases value
        exact (hf b).meets _ _ state heads

/-- What leaves the store alone and takes related sessions to such sessions. -/
theorem of_level (store : ∀ s, (x.run s).state.store = s.store)
    (level : InStep (Parting.alike k.Holds) k.Holds Eq x y) : k.Foresees x y where
  forward := Action.forward_of_store store
  meets s s' hs _ := level s s' hs

theorem pure (b : β) : k.Foresees (Pure.pure b : Action σ α β) (Pure.pure b) :=
  of_level (fun _ => rfl) (Leads.pure rfl)

theorem fail (e : Stop) : k.Foresees (Attempt.fail e : Action σ α β) (Attempt.fail e) :=
  of_level (fun _ => rfl) (Muted.level_fail e)

theorem of_state {f g : Session σ α → Action σ α β} (forward : ∀ s, (f s).Forward)
    (h : ∀ s s', k.Holds s s' → k.Foresees (f s) (g s')) :
    k.Foresees (Attempt.state >>= f) (Attempt.state >>= g) where
  forward := Action.forward_of_state forward
  meets s s' hs heads := (h s s' hs).meets s s' hs heads

theorem wrap {before before' : Session σ α → Session σ α}
    {after after' : Session σ α → Session σ α → Session σ α} {w w' : Action σ α β}
    (h : k.Foresees x y) (hw : Wraps before after w x) (hw' : Wraps before' after' w' y)
    (enter : ∀ s, (before s).store = s.store) (leave : ∀ s t, (after s t).store = t.store)
    (enters : ∀ s s', k.Holds s s' → k.Holds (before s) (before' s'))
    (leaves : ∀ s s' t t', k.Holds s s' → k.Holds t t' → k.Holds (after s t) (after' s' t')) :
    k.Foresees w w' where
  forward := h.forward.wrap hw enter leave
  meets s s' hs heads := by
    have inside := h.meets _ _ (enters s s' hs)
    rw [hw s] at heads
    rw [hw s, hw' s']
    generalize x.run (before s) = o at inside heads ⊢
    have heads : k.Heads o := by
      cases o with
      | ok b t => exact (congrArg k.going (leave s t)).mp heads
      | failed e t => exact (congrArg k.ended (leave s t)).mp heads
    exact (inside heads).mapState (fun t t' => leaves s s' t t' hs)
      (fun _ _ t t' parted => ⟨parted.1, leaves s s' t t' hs parted.2⟩) fun _ => id

theorem underView (view : View) (h : k.Foresees x y) :
    k.Foresees (Action.underView view x) (Action.underView view y) :=
  h.wrap (Action.wraps_underView view x) (Action.wraps_underView view y) (fun _ => rfl)
    (fun _ _ => rfl) (fun _ _ hs => hs.withView unmoved view)
    fun _ _ _ _ hs ht => hs.backView unmoved ht

theorem inFrame (hx : ∀ s, ∃ extra, (x.run s).state.stack = s.stack.extend extra)
    (hy : ∀ s, ∃ extra, (y.run s).state.stack = s.stack.extend extra) (h : k.Foresees x y) :
    k.Foresees (Action.inFrame x) (Action.inFrame y) :=
  h.wrap (Action.wraps_inFrame hx) (Action.wraps_inFrame hy) (fun _ => rfl) (fun _ _ => rfl)
    (fun _ _ hs => hs.pushFrame unmoved) fun _ _ _ _ hs ht => hs.backStack unmoved ht

theorem deeper (h : k.Foresees x y) : k.Foresees (Action.deeper x) (Action.deeper y) := by
  refine h.wrap (Action.wraps_deeper x) (Action.wraps_deeper y) (fun _ => rfl) (fun _ _ => rfl)
    ?_ ?_
  · exact fun _ _ hs => { hs with
      rest := { hs.rest with depth := congrArg (· + 1) hs.rest.depth } }
  · exact fun _ _ _ _ _ ht => { ht with
      rest := { ht.rest with depth := congrArg (· - 1) ht.rest.depth } }

theorem bindName (name : String) {binding : Binding α} (quiet : binding.Quiet) (span : Span) :
    k.Foresees (Action.bindName name binding span : Action σ α Unit)
      (Action.bindName name binding span) := by
  refine of_level (fun s => ?_) (Muted.level_bindName unmoved name quiet span)
  rw [Action.bindName_run]
  split <;> rfl

theorem bindParams (params : List Param) (values : List (Value α)) :
    k.Foresees (Action.bindParams params values : Action σ α Unit)
      (Action.bindParams params values) := by
  induction params generalizing values with
  | nil => exact pure ()
  | cons p params ih =>
    cases values with
    | nil => exact pure ()
    | cons v values =>
      have quiet : (Binding.value v).Quiet := trivial
      exact andThen (bindName p.name quiet p.span) fun _ => ih values

theorem of_frameSize {f : Nat → Action σ α β} (h : ∀ size, k.Foresees (f size) (f size)) :
    k.Foresees (Attempt.state >>= fun s => f s.stack.frameSize)
      (Attempt.state >>= fun s => f s.stack.frameSize) := by
  refine of_state (fun s => (h s.stack.frameSize).forward) fun s s' hs => ?_
  have size : s.stack.frameSize = s'.stack.frameSize := hs.twins.frameSize
  rw [size]
  exact h s'.stack.frameSize

theorem checkSlots (declared : Nat) :
    k.Foresees (ShapeGrammar.checkSlots declared : Action σ α Unit)
      (ShapeGrammar.checkSlots declared) := by
  refine of_frameSize (f := fun pushed =>
    if pushed ≠ declared then Action.broken (.slotCount pushed declared) else Pure.pure ())
    fun pushed => ?_
  split
  · exact fail _
  · exact pure ()

theorem buildWith (what : String) {f : Path.Compiled α → Except Broken (Path.Compiled α)}
    (hf : ∀ p p', Path.Compiled.Kin k.numbered p p' →
      Path.Compiled.Both (Path.Compiled.Kin k.numbered) (f p) (f p')) :
    k.Foresees (Context.buildWith what f : Action σ α Unit) (Context.buildWith what f) := by
  refine of_level (fun s => ?_) (Context.buildWith_across what hf (fun _ _ hs => hs.rest.building)
    (fun _ _ _ _ _ _ hs _ _ _ _ done => { hs with rest := { hs.rest with building := .some done } })
    fun _ _ _ hs => ⟨rfl, hs⟩)
  simp only [Context.buildWith]
  split
  · rfl
  · split <;> rfl

end Foresees

end Pairing

end ShapeGrammar
