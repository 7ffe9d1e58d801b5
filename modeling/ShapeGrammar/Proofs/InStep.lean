import ShapeGrammar.Attempt

/-!
# Two attempts side by side

Two attempts are in step when, started in related states, they end alike: with
related values in related states, or with related failures. The first may also
give up in a way that frees the second of every obligation, as when it runs
out of fuel. An attempt set beside itself gives the invariants of one run.
-/

set_option autoImplicit false

namespace ShapeGrammar

variable {ε ε' ω ω' β β' γ γ' : Type}

/-- How two attempts may part from success. -/
structure Parting (ε ε' ω ω' : Type) where
  /-- Both have failed. -/
  together : ε → ε' → ω → ω' → Prop
  /-- The first has failed in a way that asks nothing of the second. -/
  alone : ε → Prop

/-- The ends of two attempts, with `Q` for the states after success. -/
inductive Meets (d : Parting ε ε' ω ω') (Q : ω → ω' → Prop) (same : β → β' → Prop) :
    Outcome ε ω β → Outcome ε' ω' β' → Prop
  | ok {b : β} {b' : β'} {s : ω} {s' : ω'} (value : same b b') (state : Q s s') :
      Meets d Q same (.ok b s) (.ok b' s')
  | together {e : ε} {e' : ε'} {s : ω} {s' : ω'} (h : d.together e e' s s') :
      Meets d Q same (.failed e s) (.failed e' s')
  | alone {e : ε} {s : ω} {o : Outcome ε' ω' β'} (h : d.alone e) :
      Meets d Q same (.failed e s) o

structure Parting.Within (d d' : Parting ε ε' ω ω') : Prop where
  together : ∀ e e' s s', d.together e e' s s' → d'.together e e' s s'
  alone : ∀ e, d.alone e → d'.alone e

theorem Parting.Within.refl (d : Parting ε ε' ω ω') : d.Within d :=
  ⟨fun _ _ _ _ => id, fun _ => id⟩

theorem Meets.weaken {d d' : Parting ε ε' ω ω'} {Q Q' : ω → ω' → Prop}
    {same same' : β → β' → Prop} {o : Outcome ε ω β} {o' : Outcome ε' ω' β'}
    (h : Meets d Q same o o') (hd : d.Within d') (hQ : ∀ s s', Q s s' → Q' s s')
    (hsame : ∀ b b', same b b' → same' b b') : Meets d' Q' same' o o' := by
  cases h with
  | ok value state => exact .ok (hsame _ _ value) (hQ _ _ state)
  | together h => exact .together (hd.together _ _ _ _ h)
  | alone h => exact .alone (hd.alone _ h)

def Outcome.mapState {ν : Type} (f : ω → ν) : Outcome ε ω β → Outcome ε ν β
  | .ok b s => .ok b (f s)
  | .failed e s => .failed e (f s)

@[simp] theorem Outcome.state_mapState {ν : Type} (f : ω → ν) (o : Outcome ε ω β) :
    (o.mapState f).state = f o.state := by
  cases o <;> rfl

/-- What holds of the state after success, and of failure and its state. -/
def Outcome.Ends (Q : ω → Prop) (F : ε → ω → Prop) : Outcome ε ω β → Prop
  | .ok _ s => Q s
  | .failed e s => F e s

theorem Outcome.Ends.imp {Q Q' : ω → Prop} {F F' : ε → ω → Prop} {o : Outcome ε ω β}
    (h : o.Ends Q F) (ok : ∀ s, Q s → Q' s) (failed : ∀ e s, F e s → F' e s) : o.Ends Q' F' := by
  cases o with
  | ok b s => exact ok s h
  | failed e s => exact failed e s h

theorem Outcome.Ends.mapState {ν : Type} {Q : ω → Prop} {F : ε → ω → Prop} {o : Outcome ε ω β}
    (h : o.Ends Q F) {f : ω → ν} {Q' : ν → Prop} {F' : ε → ν → Prop} (ok : ∀ s, Q s → Q' (f s))
    (failed : ∀ e s, F e s → F' e (f s)) : (o.mapState f).Ends Q' F' := by
  cases o with
  | ok b s => exact ok s h
  | failed e s => exact failed e s h

theorem Meets.and_ends {d : Parting ε ε' ω ω'} {Q : ω → ω' → Prop} {same : β → β' → Prop}
    {o : Outcome ε ω β} {o' : Outcome ε' ω' β'} (h : Meets d Q same o o') {I : ω → Prop}
    {F : ε → ω → Prop} (left : o.Ends I F) {I' : ω' → Prop} {F' : ε' → ω' → Prop}
    (right : o'.Ends I' F') : Meets d (fun s s' => Q s s' ∧ I s ∧ I' s') same o o' := by
  cases h with
  | ok value state => exact .ok value ⟨state, left, right⟩
  | together parted => exact .together parted
  | alone quits => exact .alone quits

theorem Meets.mapState {d d' : Parting ε ε' ω ω'} {Q Q' : ω → ω' → Prop} {same : β → β' → Prop}
    {o : Outcome ε ω β} {o' : Outcome ε' ω' β'} (h : Meets d Q same o o') {f : ω → ω} {g : ω' → ω'}
    (ok : ∀ s s', Q s s' → Q' (f s) (g s'))
    (together : ∀ e e' s s', d.together e e' s s' → d'.together e e' (f s) (g s'))
    (alone : ∀ e, d.alone e → d'.alone e) :
    Meets d' Q' same (o.mapState f) (o'.mapState g) := by
  cases h with
  | ok value state => exact .ok value (ok _ _ state)
  | together parted => exact .together (together _ _ _ _ parted)
  | alone quits => exact .alone (alone _ quits)

theorem Meets.bind {d : Parting ε ε' ω ω'} {Q Q' : ω → ω' → Prop} {same : β → β' → Prop}
    {next : γ → γ' → Prop} {x : Attempt ε ω β} {y : Attempt ε' ω' β'} {f : β → Attempt ε ω γ}
    {g : β' → Attempt ε' ω' γ'} {s : ω} {s' : ω'} (hx : Meets d Q same (x.run s) (y.run s'))
    (hf : ∀ b b' t t', same b b' → Q t t' → Meets d Q' next ((f b).run t) ((g b').run t')) :
    Meets d Q' next ((x >>= f).run s) ((y >>= g).run s') := by
  simp only [Attempt.run_bind]
  generalize x.run s = o at hx ⊢
  generalize y.run s' = o' at hx ⊢
  cases hx with
  | ok value state => exact hf _ _ _ _ value state
  | together h => exact .together h
  | alone h => exact .alone h

namespace Attempt

/-- From states related by `P`, the attempts meet in states related by `Q`. -/
def Leads (d : Parting ε ε' ω ω') (P Q : ω → ω' → Prop) (same : β → β' → Prop)
    (x : Attempt ε ω β) (y : Attempt ε' ω' β') : Prop :=
  ∀ s s', P s s' → Meets d Q same (x.run s) (y.run s')

abbrev InStep (d : Parting ε ε' ω ω') (P : ω → ω' → Prop) (same : β → β' → Prop)
    (x : Attempt ε ω β) (y : Attempt ε' ω' β') : Prop :=
  Leads d P P same x y

variable {d : Parting ε ε' ω ω'} {P P' Q Q' : ω → ω' → Prop}
  {same : β → β' → Prop} {next : γ → γ' → Prop}

theorem Leads.bind {x : Attempt ε ω β} {y : Attempt ε' ω' β'}
    {f : β → Attempt ε ω γ} {g : β' → Attempt ε' ω' γ'}
    (hx : Leads d P Q same x y)
    (hf : ∀ b b', same b b' → Leads d Q Q' next (f b) (g b')) :
    Leads d P Q' next (x >>= f) (y >>= g) :=
  fun s s' h => (hx s s' h).bind fun b b' t t' value state => hf b b' value t t' state

/-- The next attempts start from one value. -/
theorem Leads.andThen {x : Attempt ε ω β} {y : Attempt ε' ω' β}
    {f : β → Attempt ε ω γ} {g : β → Attempt ε' ω' γ'}
    (hx : Leads d P Q Eq x y) (hf : ∀ b, Leads d Q Q' next (f b) (g b)) :
    Leads d P Q' next (x >>= f) (y >>= g) := by
  refine Leads.bind hx ?_
  rintro b _ rfl
  exact hf b

theorem Leads.pure {b : β} {b' : β'} (h : same b b') :
    InStep d P same (pure b : Attempt ε ω β) (pure b' : Attempt ε' ω' β') :=
  fun _ _ state => .ok h state

theorem Leads.fail {e : ε} {e' : ε'} (h : ∀ s s', P s s' → d.together e e' s s') :
    Leads d P Q same (Attempt.fail e : Attempt ε ω β) (Attempt.fail e' : Attempt ε' ω' β') :=
  fun s s' state => .together (h s s' state)

theorem Leads.failAlone {e : ε} {y : Attempt ε' ω' β'} (h : d.alone e) :
    Leads d P Q same (Attempt.fail e : Attempt ε ω β) y :=
  fun _ _ _ => .alone h

theorem Leads.state :
    InStep d P P (Attempt.state : Attempt ε ω ω) (Attempt.state : Attempt ε' ω' ω') :=
  fun _ _ h => .ok h h

theorem Leads.update {f : ω → ω} {g : ω' → ω'} (h : ∀ s s', P s s' → Q (f s) (g s')) :
    Leads d P Q Eq (Attempt.update f : Attempt ε ω Unit)
      (Attempt.update g : Attempt ε' ω' Unit) :=
  fun s s' state => .ok rfl (h s s' state)

theorem Leads.weaken {d' : Parting ε ε' ω ω'} {x : Attempt ε ω β} {y : Attempt ε' ω' β'}
    (hx : Leads d P Q same x y) (hd : d.Within d')
    (hP : ∀ s s', P' s s' → P s s') (hQ : ∀ s s', Q s s' → Q' s s') :
    Leads d' P' Q' same x y :=
  fun s s' h => (hx s s' (hP s s' h)).weaken hd hQ fun _ _ => id

theorem Leads.and_ends {x : Attempt ε ω β} {y : Attempt ε' ω' β'} (hx : Leads d P Q same x y)
    {I : ω → Prop} {F : ε → ω → Prop} {I' : ω' → Prop} {F' : ε' → ω' → Prop}
    (left : ∀ s s', P s s' → (x.run s).Ends I F) (right : ∀ s s', P s s' → (y.run s').Ends I' F') :
    Leads d P (fun s s' => Q s s' ∧ I s ∧ I' s') same x y :=
  fun s s' h => (hx s s' h).and_ends (left s s' h) (right s s' h)

/-! ### Attempts with a way in and a way out -/

/-- `w` runs `x` in another state and puts something back on every way out. -/
def Wraps (before : ω → ω) (after : ω → ω → ω) (w x : Attempt ε ω β) : Prop :=
  ∀ s, w.run s = (x.run (before s)).mapState (after s)

theorem Leads.wrap {d' : Parting ε ε' ω ω'} {before : ω → ω} {after : ω → ω → ω}
    {before' : ω' → ω'} {after' : ω' → ω' → ω'} {w x : Attempt ε ω β} {w' y : Attempt ε' ω' β'}
    (hx : Leads d' P' Q' same x y) (hw : Wraps before after w x) (hw' : Wraps before' after' w' y)
    (enter : ∀ s s', P s s' → P' (before s) (before' s'))
    (leave : ∀ s s' t t', P s s' → Q' t t' → Q (after s t) (after' s' t'))
    (part : ∀ s s' e e' t t', P s s' → d'.together e e' t t' →
      d.together e e' (after s t) (after' s' t'))
    (alone : ∀ e, d'.alone e → d.alone e) : Leads d P Q same w w' := by
  intro s s' h
  rw [hw s, hw' s']
  exact (hx _ _ (enter s s' h)).mapState (fun t t' => leave s s' t t' h)
    (fun e e' t t' => part s s' e e' t t' h) alone

/-! ### One attempt -/

def single (F : ε → ω → Prop) : Parting ε ε ω ω where
  together e e' s s' := e = e' ∧ s = s' ∧ F e s
  alone _ := False

def Twice (P : ω → Prop) (s s' : ω) : Prop := s = s' ∧ P s

/-- An attempt beside itself says what one run does. -/
theorem leads_single_iff {I J : ω → Prop} {F : ε → ω → Prop} {x : Attempt ε ω β} :
    Leads (single F) (Twice I) (Twice J) Eq x x ↔ ∀ s, I s → (x.run s).Ends J F := by
  constructor
  · intro h s hs
    have ends := h s s ⟨rfl, hs⟩
    generalize x.run s = o at ends ⊢
    cases ends with
    | ok _ state => exact state.2
    | together parted => exact parted.2.2
    | alone h => exact h.elim
  · rintro h s _ ⟨rfl, hs⟩
    have ends := h s hs
    generalize x.run s = o at ends ⊢
    cases o with
    | ok b t => exact .ok rfl ⟨rfl, ends⟩
    | failed e t => exact .together ⟨rfl, rfl, ends⟩

theorem ends_bind {x : Attempt ε ω β} {f : β → Attempt ε ω γ} {s : ω} {I J : ω → Prop}
    {F G : ε → ω → Prop} (hx : (x.run s).Ends I F) (hF : ∀ e t, F e t → G e t)
    (hf : ∀ b t, I t → ((f b).run t).Ends J G) : ((x >>= f).run s).Ends J G := by
  rw [run_bind]
  generalize x.run s = o at hx ⊢
  cases o with
  | ok b t => exact hf b t hx
  | failed e t => exact hF e t hx

end Attempt

end ShapeGrammar
