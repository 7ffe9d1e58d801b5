import ShapeGrammar.Proofs.Fetching
import ShapeGrammar.Proofs.Sample

/-!
# What renders leave behind

Renders of one grammar follow each other and share a store. Set beside itself,
a render shows what becomes of the store: values stay sound, every path that is
kept is what its rule would build again, identities are given out once, and
nothing that is kept is ever replaced.
-/

set_option autoImplicit false

namespace ShapeGrammar

open Attempt

variable {σ α : Type}

inductive Outcome.Leaves {ω β : Type} : Outcome Stop ω β → ω → Prop
  | ok (b : β) (t : ω) : Leaves (.ok b t) t
  | fault (f : Fault) (t : ω) : Leaves (.failed (.fault f) t) t

theorem Outcome.leaves_or_outOfFuel {ω β : Type} (o : Outcome Stop ω β) :
    o.Leaves o.state ∨ ∃ t, o = .failed .outOfFuel t := by
  cases o with
  | ok b t => exact .inl (.ok b t)
  | failed e t =>
    cases e with
    | fault f => exact .inl (.fault f t)
    | outOfFuel => exact .inr ⟨t, rfl⟩

theorem Outcome.Leaves.state_eq {ω β : Type} {o : Outcome Stop ω β} {t : ω} (h : o.Leaves t) :
    o.state = t := by
  cases h <;> rfl

theorem Outcome.Leaves.of_ends {ω β : Type} {o : Outcome Stop ω β} {t : ω} (h : o.Leaves t)
    {Q : ω → Prop} {F : Stop → ω → Prop} (ends : o.Ends Q F) : Q t ∨ ∃ e, F e t := by
  cases h with
  | ok b => exact .inl ends
  | fault f => exact .inr ⟨_, ends⟩

/-- The identities of kept paths are taken, each by one place. -/
structure Store.Orderly (store : Store α) : Prop where
  below : ∀ place p uid, store.paths.lookup place = some p → p.uid = some uid →
    uid < store.nextUid
  apart : ∀ place place' p p' uid, store.paths.lookup place = some p →
    store.paths.lookup place' = some p' → p.uid = some uid → p'.uid = some uid → place = place'

/-- A store later on: what was kept is kept still, and what is new has a new
identity. -/
structure Store.Grows (store later : Store α) : Prop where
  kept : ∀ place p, store.paths.lookup place = some p → later.paths.lookup place = some p
  fresh : ∀ place p, later.paths.lookup place = some p → store.paths.lookup place = some p ∨
    ∃ uid, p.uid = some uid ∧ store.nextUid ≤ uid
  nextUid : store.nextUid ≤ later.nextUid

theorem Store.Grows.refl (store : Store α) : store.Grows store :=
  ⟨fun _ _ => id, fun _ _ => .inl, Nat.le_refl _⟩

variable [Scalar α]

/-- The stores that earlier runs of a grammar may have left behind. -/
inductive Grammar.Left (g : Grammar α) : Store α → Prop
  | empty : Left g .empty
  | session {store : Store α} (earlier : Left g store) :
      Left g { store with sessions := store.sessions + 1 }
  | run {σ : Type} (r : Renderer σ α) (options : Options) (fuel start : Nat) {s t : Session σ α}
      (rest : s.AtRest) (earlier : Left g s.store)
      (ends : (((Setting.standard g r options).run fuel start).run s).Leaves t) : Left g t.store

structure Store.Legacy (d : Draft α) (g : Grammar α) (enough : Nat) (store : Store α) : Prop where
  sound : store.Sound d.values
  rebuilds : store.Rebuilds d g enough
  orderly : store.Orderly

theorem Store.Legacy.mono {d : Draft α} {g : Grammar α} {n m : Nat} {store : Store α}
    (h : store.Legacy d g n) (hle : n ≤ m) : store.Legacy d g m :=
  { h with rebuilds := h.rebuilds.mono hle }

theorem Store.Legacy.keep {d : Draft α} {g : Grammar α} {enough : Nat} {store : Store α}
    (h : store.Legacy d g enough) {place : Address} {v : Value α} (hv : d.values place = some v) :
    (store.keep place v).Legacy d g enough :=
  ⟨h.sound.keep hv, h.rebuilds, h.orderly.below, h.orderly.apart⟩

namespace Cargo.Gains

variable {d : Draft α} {g : Grammar α} {enough : Nat} {cell : Option Address}
  {p : Path.Compiled α} {a e : Cargo σ α}

theorem lookup (h : a.Gains d g enough cell p e) {place : Address} {q : Path.Compiled α}
    (found : e.store.paths.lookup place = some q) :
    cell = some place ∧ q = p ∨ a.store.paths.lookup place = some q := by
  rw [h.paths] at found
  cases cell with
  | none => exact .inr found
  | some other =>
    simp only [Option.toList_some, List.map_cons, List.map_nil, List.singleton_append,
      List.lookup_cons] at found
    split at found
    case h_1 same =>
      cases found
      exact .inl ⟨congrArg some (beq_iff_eq.mp same).symm, rfl⟩
    case h_2 => exact .inr found

theorem kept (h : a.Gains d g enough cell p e) {place : Address} {q : Path.Compiled α}
    (found : a.store.paths.lookup place = some q) : e.store.paths.lookup place = some q := by
  rw [h.paths]
  cases cell with
  | none => exact found
  | some other =>
    simp only [Option.toList_some, List.map_cons, List.map_nil, List.singleton_append,
      List.lookup_cons]
    split
    case h_1 same =>
      have missed := h.missed other rfl
      rw [← beq_iff_eq.mp same, found] at missed
      cases missed
    case h_2 => exact found

theorem new (h : a.Gains d g enough cell p e) {place : Address} (here : cell = some place) :
    e.store.paths.lookup place = some p := by
  rw [h.paths, here]
  simp

theorem grows (h : a.Gains d g enough cell p e) {base : Store α} (grows : base.Grows a.store) :
    base.Grows e.store where
  kept place q found := h.kept (grows.kept place q found)
  fresh place q found := by
    rcases h.lookup found with ⟨-, rfl⟩ | old
    · exact .inr ⟨_, h.uid, grows.nextUid⟩
    · exact grows.fresh place q old
  nextUid := by
    rw [h.nextUid]
    exact Nat.le_succ_of_le grows.nextUid

theorem orderly (h : a.Gains d g enough cell p e) (orderly : a.store.Orderly) :
    e.store.Orderly where
  below place q uid found hq := by
    rw [h.nextUid]
    rcases h.lookup found with ⟨-, rfl⟩ | found
    · cases h.uid.symm.trans hq
      exact Nat.lt_succ_self _
    · exact Nat.lt_succ_of_lt (orderly.below place q uid found hq)
  apart place place' q q' uid found found' hq hq' := by
    have fresh : ∀ {place q}, a.store.paths.lookup place = some q → q.uid ≠ p.uid := by
      intro place q found same
      have low := orderly.below place q _ found (same.trans h.uid)
      exact Nat.lt_irrefl _ low
    rcases h.lookup found with ⟨cell, rfl⟩ | old
    · rcases h.lookup found' with ⟨cell', -⟩ | old'
      · exact Option.some.inj (cell.symm.trans cell')
      · exact absurd (hq'.trans hq.symm) (fresh old')
    · rcases h.lookup found' with ⟨-, rfl⟩ | old'
      · exact absurd (hq.trans hq'.symm) (fresh old)
      · exact orderly.apart place place' q q' uid old old' hq hq'

theorem legacy (h : a.Gains d g enough cell p e) (legacy : a.store.Legacy d g enough) :
    e.store.Legacy d g enough :=
  ⟨h.sound, h.rebuilds, h.orderly legacy.orderly⟩

end Cargo.Gains

/-! ### A run beside itself -/

structure Mirrored (d : Draft α) (g : Grammar α) (enough : Nat) (base : Store α)
    (c c' : Cargo σ α) : Prop where
  random : c.random = c'.random
  renderer : c.renderer = c'.renderer
  paths : c.store.paths = c'.store.paths
  nextUid : c.store.nextUid = c'.store.nextUid
  sound' : c'.store.Sound d.values
  legacy : c.store.Legacy d g enough
  grows : base.Grows c.store

namespace Mirrored

variable {d : Draft α} {g : Grammar α} {enough : Nat} {base : Store α}

theorem ties (r : Renderer σ α) : Ties d r r (Mirrored d g enough base) where
  random _ _ h := h.random
  draw _ _ _ h := { h with random := rfl }
  building _ _ _ _ h := { h with }
  sound _ _ h := ⟨h.legacy.sound, h.sound'⟩
  keep _ _ _ _ h hv := { h with
    legacy := h.legacy.keep hv
    grows := { h.grows with } }
  keep' _ _ _ _ h hv := { h with sound' := h.sound'.keep hv }
  cutoff c c' i depth h := by
    rw [h.renderer]
    exact ⟨rfl, { h with renderer := rfl }⟩
  primitive c c' i p h := by
    rw [h.renderer]
    exact { h with renderer := rfl }

theorem drawable (r : Renderer σ α) {p : Path.Compiled α} (uid : p.uid.isSome = true)
    {c c' : Cargo σ α} (h : Mirrored d g enough base c c') :
    Drawable r r (Mirrored d g enough base) p p c c' := by
  obtain ⟨uid, hu⟩ := Option.isSome_iff_exists.mp uid
  refine ⟨Mirrored d g enough base, uid, uid, hu, hu, ⟨fun _ _ => id, ?_⟩, h⟩
  intro c c' i command h
  rw [h.renderer]
  exact { h with renderer := rfl }

theorem stocked {c c' : Context σ α} (renderer : c'.renderer = c.renderer)
    (strategy : c'.strategy = c.strategy) :
    Stocked d g enough True (Mirrored d g enough base) c c' where
  rebuilds a a' h := ⟨h.legacy.rebuilds, fun place p found => by
    rw [← h.paths] at found
    exact h.legacy.rebuilds place p found⟩
  built rule a a' e e' p p' h alike frame gains gains' := by
    have cells : c'.cellOf rule = c.cellOf rule := by rw [Context.cellOf, Context.cellOf, strategy]
    have uid : p.uid = p'.uid := by rw [gains.uid, gains'.uid, h.nextUid]
    cases Path.Compiled.eq_of_erased alike uid (frame trivial)
    rw [renderer]
    refine drawable c.renderer (gains.uid ▸ rfl) ?_
    exact {
      random := by rw [gains.random, gains'.random, h.random]
      renderer := by rw [gains.renderer, gains'.renderer, h.renderer]
      paths := by rw [gains.paths, gains'.paths, h.paths, cells]
      nextUid := by rw [gains.nextUid, gains'.nextUid, h.nextUid]
      sound' := gains'.sound
      legacy := gains.legacy h.legacy
      grows := gains.grows h.grows }
  lent rule place a a' e' p p' h _ cell found gains' := by
    have cells : c'.cellOf rule = c.cellOf rule := by rw [Context.cellOf, Context.cellOf, strategy]
    have missed := gains'.missed place (cells.trans cell)
    rw [← h.paths, found] at missed
    cases missed
  borrowed rule place a a' e p p' h _ gains cell' found' := by
    have cells : c'.cellOf rule = c.cellOf rule := by rw [Context.cellOf, Context.cellOf, strategy]
    have missed := gains.missed place (cells.symm.trans cell')
    rw [h.paths, found'] at missed
    cases missed
  had place a a' p p' h _ found found' := by
    have same : p = p' := by
      rw [h.paths, found'] at found
      exact (Option.some.inj found).symm
    subst same
    rw [renderer]
    exact drawable c.renderer (h.legacy.rebuilds place p found).1 h

end Mirrored

theorem Setting.standard_runs (g : Grammar α) (r : Renderer σ α) (options : Options) :
    (standard g r options).Runs g :=
  ⟨rfl, rfl, rfl⟩

theorem Mirrored.matched {d : Draft α} {g : Grammar α} (loads : d.Loads g) (r : Renderer σ α)
    (options : Options) {fuel enough : Nat} (low : fuel ≤ enough) (base : Store α) :
    Setting.Matched d g True (Mirrored d g enough base) (.standard g r options)
      (.standard g r options) fuel enough :=
  have runs := Setting.standard_runs g r options
  .of_stocked loads runs runs (Mirrored.ties r) (fun _ _ => Mirrored.stocked rfl rfl) low
    (Nat.le_refl enough)

/-- A run keeps what it finds in the store and leaves it in order. -/
theorem Setting.run_legacy {d : Draft α} {g : Grammar α} (loads : d.Loads g) (r : Renderer σ α)
    (options : Options) (fuel start : Nat) {s t : Session σ α} (rest : s.AtRest) {enough : Nat}
    (legacy : s.store.Legacy d g enough)
    (ends : (((standard g r options).run fuel start).run s).Leaves t) :
    t.store.Legacy d g (max enough fuel) ∧ s.store.Grows t.store := by
  have tied : Mirrored d g (max enough fuel) s.store s.cargo s.cargo :=
    ⟨rfl, rfl, rfl, rfl, legacy.sound, legacy.mono (Nat.le_max_left _ _), .refl _⟩
  have meets := (Mirrored.matched loads r options (Nat.le_max_right enough fuel) s.store).run rfl
    start rest rest (fun _ => rfl) tied
  generalize ((standard g r options).run fuel start).run s = o at ends meets
  generalize ((standard g r options).run (max enough fuel + fuel) start).run s = o' at meets
  cases ends with
  | ok b t =>
    cases meets with
    | ok _ outside => exact ⟨outside.tied.legacy, outside.tied.grows⟩
  | fault f t =>
    cases meets with
    | together parted => exact ⟨parted.2.tied.legacy, parted.2.tied.grows⟩
    | alone quits => cases quits

theorem Store.legacy_empty (d : Draft α) (g : Grammar α) :
    (Store.empty : Store α).Legacy d g 0 where
  sound _ _ found := nomatch found
  rebuilds _ _ found := nomatch found
  orderly := {
    below := fun _ _ _ found => nomatch found
    apart := fun _ _ _ _ _ found => nomatch found }

theorem Grammar.Left.legacy {d : Draft α} {g : Grammar α} (loads : d.Loads g) {store : Store α}
    (h : g.Left store) : ∃ enough, store.Legacy d g enough := by
  induction h with
  | empty => exact ⟨0, Store.legacy_empty d g⟩
  | session _ ih =>
    obtain ⟨enough, legacy⟩ := ih
    exact ⟨enough, legacy.sound, legacy.rebuilds, legacy.orderly.below, legacy.orderly.apart⟩
  | run r options fuel start rest _ ends ih =>
    obtain ⟨enough, legacy⟩ := ih
    exact ⟨_, (Setting.run_legacy loads r options fuel start rest legacy ends).1⟩

theorem Sample.first_left : grammar.Left first.state.store := by
  obtain ⟨t, ended⟩ := first_ok
  have rest : (session .empty).AtRest := Session.begin_atRest _ _ _
  have left : grammar.Left (session .empty).store := .session .empty
  have ends : (((Setting.standard grammar renderer options).run 9 1).run
      (session .empty)).Leaves t := by
    change first.Leaves t
    rw [ended]
    exact .ok () t
  rw [ended]
  exact Grammar.Left.run renderer options 9 1 rest left ends

end ShapeGrammar
