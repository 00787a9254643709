import LispMachine.Proofs.Analyze.Guards
import LispMachine.Proofs.Expr.Rebinds
/-!
# Marks on loop locals

A `recur` that passes a primitive local a value of another kind marks the local.  Over any stretch of an analysis the locals
keep their kinds, and those that are marked after it are those that were marked before and those that got such a value from a
`recur` in an expression made on the way (`Context.Marks`).

`Tracks loop targets before x after` says so of an analysis that starts where a `recur` rebinds `loop` and that comes back to
there: `before` are the expressions made so far, and `after` those made when it ends.  Only the targets can get a value of
another kind from them; all other locals they rebind exist and take the values.  An analysis that need not come back, as
long as the scope is put back around it, `Follows`.
-/
namespace LispMachine

open Analyze LispMachine.Expr

/-- Values of the same sort and of no more bits; what has no kind is boxed, and is not taken either. -/
def Prim.Takes (kind : Prim) (had : Option Prim) : Prop :=
  kind = .long ∧ (had = some .long ∨ had = some .int) ∨ kind = .double ∧ (had = some .double ∨ had = some .float)

/-- The check of an argument of `recur` goes by this table. -/
theorem Prim.accepts_iff {kind : Prim} {had : Option Prim} : accepts kind had = true ↔ kind.Takes had := by
  unfold Takes
  cases kind <;> rcases had with _ | had <;> try cases had
  all_goals decide

namespace Context

/-- The local is primitive, and the value is of no kind that it takes: of neither long nor int, or of neither double nor float. -/
def Clash (c : Context) (target : Nat) (value : Expr) : Prop :=
  ∃ kind, (c.binding target).prim = some kind ∧ ¬ kind.Takes value.prim?

/-- The locals of the first context keep their kinds in the second one, and the rebindings account for the new marks. -/
structure Marks (targets : List Nat) (c c' : Context) (rs : Set (Nat × Expr)) : Prop where
  size : c.bindings.size ≤ c'.bindings.size
  prim : ∀ b < c.bindings.size, (c'.binding b).prim = (c.binding b).prim
  marked : ∀ b < c.bindings.size, (c'.binding b).recurMismatch = true ↔
    (c.binding b).recurMismatch = true ∨ ∃ value, (b, value) ∈ rs ∧ c.Clash b value
  settled : ∀ r ∈ rs, r.1 ∈ targets ∨ r.1 < c'.bindings.size ∧ ¬ c'.Clash r.1 r.2

variable {c c' c'' : Context} {targets targets' : List Nat} {rs rs' : Set (Nat × Expr)}

theorem clash_congr {b : Nat} (h : (c'.binding b).prim = (c.binding b).prim) (value : Expr) : c'.Clash b value ↔ c.Clash b value := by
  rw [Clash, Clash, h]

theorem marks_of_kinds (hs : c.bindings.size ≤ c'.bindings.size)
    (hk : ∀ b < c.bindings.size, ((c'.binding b).prim, (c'.binding b).recurMismatch) = ((c.binding b).prim, (c.binding b).recurMismatch)) :
    Marks targets c c' ∅ := by
  refine ⟨hs, fun b hb => (Prod.mk.inj (hk b hb)).1, fun b hb => ?_, fun r hr => hr.elim⟩
  rw [(Prod.mk.inj (hk b hb)).2]
  simp

theorem Quiet.marks (h : Quiet c c') : Marks targets c c' ∅ := marks_of_kinds (Nat.le_of_eq h.size.symm) fun b _ => h.kinds b

theorem Marks.mono (h : Marks targets c c' rs) (ht : targets ⊆ targets') : Marks targets' c c' rs :=
  ⟨h.size, h.prim, h.marked, fun r hr => (h.settled r hr).imp_left fun hm => ht hm⟩

theorem Marks.trans (h : Marks targets c c' rs) (h' : Marks targets c' c'' rs') : Marks targets c c'' (rs ∪ rs') := by
  refine ⟨Nat.le_trans h.size h'.size, fun b hb => ?_, fun b hb => ?_, fun r hr => ?_⟩
  · exact (h'.prim b (Nat.lt_of_lt_of_le hb h.size)).trans (h.prim b hb)
  · rw [h'.marked b (Nat.lt_of_lt_of_le hb h.size), h.marked b hb, or_assoc, ← exists_or]
    simp only [Set.mem_union, or_and_right, clash_congr (h.prim b hb)]
  · rcases hr with hr | hr
    · refine (h.settled r hr).imp_right fun ⟨hlt, hc⟩ => ⟨Nat.lt_of_lt_of_le hlt h'.size, ?_⟩
      rwa [clash_congr (h'.prim r.1 hlt)]
    · exact h'.settled r hr

/-- Where nothing is aimed at no mark is new. -/
theorem Marks.mark_eq (h : Marks [] c c' rs) {b : Nat} (hb : b < c.bindings.size) : (c'.binding b).recurMismatch = (c.binding b).recurMismatch := by
  rw [Bool.eq_iff_iff, h.marked b hb]
  refine or_iff_left fun ⟨value, hr, hc⟩ => ?_
  obtain ⟨_, hn⟩ := (h.settled _ hr).resolve_left List.not_mem_nil
  exact hn ((clash_congr (h.prim b hb) value).2 hc)

/-- If the targets are new then no older local was marked, and the rebindings may be forgotten, or be replaced by others that
pass no value of another kind. -/
theorem Marks.close (h : Marks targets c c' rs) (hnew : ∀ t ∈ targets, c.bindings.size ≤ t)
    (hrs : ∀ r ∈ rs', r.1 < c'.bindings.size ∧ ¬ c'.Clash r.1 r.2) : Marks [] c c' rs' := by
  refine ⟨h.size, h.prim, fun b hb => ?_, fun r hr => .inr (hrs r hr)⟩
  rw [h.marked b hb]
  refine or_congr_right ⟨fun ⟨value, hr, hc⟩ => ?_, fun ⟨value, hr, hc⟩ => ?_⟩
  · rcases h.settled _ hr with ht | ⟨_, hn⟩
    · exact absurd hb (Nat.not_lt.2 (hnew b ht))
    · exact absurd ((clash_congr (h.prim b hb) value).2 hc) hn
  · exact absurd ((clash_congr (h.prim b hb) value).2 hc) (hrs _ hr).2

end Context

namespace Analysis

variable {α β : Type} {loop loop' : Option (List Nat)} {targets targets' : List Nat} {before : List Expr} {x : Analysis α}
  {f : α → Analysis β} {P : α → Prop} {Q : Context → Prop} {after : α → List Expr} {done : β → List Expr}

/-- The marks are accounted for, and the analysis ends as said. -/
def Follows (Q : Context → Prop) (loop : Option (List Nat)) (targets : List Nat) (before : List Expr) (x : Analysis α)
    (after : α → List Expr) : Prop :=
  ∀ c, c.scope.loopLocals = loop → ∀ a c', x c = (.ok a, c') →
    Q c' ∧ ∃ rs, c.Marks targets c' rs ∧ rebindingsOf (after a) = rebindingsOf before ∪ rs

/-- It also comes back to where a `recur` rebinds the same. -/
abbrev Tracks (loop : Option (List Nat)) (targets : List Nat) (before : List Expr) (x : Analysis α) (after : α → List Expr) : Prop :=
  Follows (fun c => c.scope.loopLocals = loop) loop targets before x after

/-- Where it ends may be forgotten. -/
theorem Follows.ends (h : Follows Q loop targets before x after) : Follows (fun _ => True) loop targets before x after :=
  fun c hl a c' hx => ⟨trivial, (h c hl a c' hx).2⟩

theorem Follows.congr {after' : α → List Expr} (h : Follows Q loop targets before x after)
    (he : ∀ a, rebindingsOf (after' a) = rebindingsOf (after a)) : Follows Q loop targets before x after' := fun c hl a c' hx => by
  obtain ⟨hq, rs, hm, ha⟩ := h c hl a c' hx
  exact ⟨hq, rs, hm, (he a).trans ha⟩

theorem Follows.mono (h : Follows Q loop targets before x after) (ht : targets ⊆ targets') : Follows Q loop targets' before x after :=
  fun c hl a c' hx => by
    obtain ⟨hq, rs, hm, ha⟩ := h c hl a c' hx
    exact ⟨hq, rs, hm.mono ht, ha⟩

/-- More expressions may have been made before. -/
theorem Follows.from (h : Follows Q loop targets [] x after) (before : List Expr) :
    Follows Q loop targets before x fun a => before ++ after a := fun c hl a c' hx => by
  obtain ⟨hq, rs, hm, ha⟩ := h c hl a c' hx
  refine ⟨hq, rs, hm, ?_⟩
  rw [rebindingsOf_append, ha, rebindingsOf_nil, Set.empty_union]

theorem tracks_pure {a : α} (h : rebindingsOf (after a) = rebindingsOf before) :
    Tracks loop targets before (Pure.pure a : Analysis α) after := by
  intro c hl a' c' hx
  cases hx
  exact ⟨hl, ∅, (Context.Quiet.refl c).marks, by rw [h, Set.union_empty]⟩

theorem follows_fail (e : CompileFault) : Follows Q loop targets before (fail e : Analysis α) after := fun _ _ _ _ hx => by cases hx

theorem follows_cut : Follows Q loop targets before (cut : Analysis α) after := fun _ _ _ _ hx => by cases hx

/-- One analysis after the other. -/
theorem follows_bind (hx : Tracks loop targets before x after) (hf : ∀ a, Follows Q loop targets (after a) (f a) done) :
    Follows Q loop targets before (x >>= f) done := by
  intro c hl b c' h
  obtain ⟨a, c₁, h₁, h₂⟩ := bind_eq_ok h
  obtain ⟨hl₁, rs₁, hm₁, ha⟩ := hx c hl a c₁ h₁
  obtain ⟨hq, rs₂, hm₂, hb⟩ := hf a c₁ hl₁ b c' h₂
  exact ⟨hq, rs₁ ∪ rs₂, hm₁.trans hm₂, by rw [hb, ha, Set.union_assoc]⟩

/-- A step that changes neither slots nor kinds. -/
theorem Calm.tracks (hx : Calm x P) : Tracks loop targets before x fun _ => before := by
  intro c hl a c' h
  have hquiet := (hx c a c' h).1
  refine ⟨?_, ∅, hquiet.marks, (Set.union_empty _).symm⟩
  rw [← hl]
  exact congrArg (fun p => (p.1 0).loopLocals) hquiet.scope

theorem follows_calm (hx : Calm x P) (hf : ∀ a, P a → Follows Q loop targets before (f a) done) :
    Follows Q loop targets before (x >>= f) done := by
  intro c hl b c' h
  obtain ⟨a, c₁, h₁, h₂⟩ := bind_eq_ok h
  have hone : Follows Q loop targets before (x >>= fun _ => f a) done :=
    follows_bind hx.tracks fun _ => hf a (hx c a c₁ h₁).2
  refine hone c hl b c' ?_
  rw [bind_of_ok h₁, h₂]

/-- The scope says what a `recur` rebinds. -/
theorem follows_scope {f : Scope → Analysis β} (h : ∀ s, s.loopLocals = loop → Follows Q loop targets before (f s) done) :
    Follows Q loop targets before (Analysis.scope >>= f) done := fun c hl => h c.scope hl c hl

/-- What only looks at the context. -/
theorem follows_read {g : Context → α} (h : ∀ c, Follows Q loop targets before (f (g c)) done) :
    Follows Q loop targets before (read g >>= f) done := fun c hl => h c c hl

theorem follows_ofExcept {e : Except CompileFault α} (h : ∀ a, e = .ok a → Follows Q loop targets before (f a) done) :
    Follows Q loop targets before (ofExcept e >>= f) done := follows_calm calm_ofExcept h

/-- A step that may be left out. -/
theorem follows_if {b : Prop} [Decidable b] {y : Analysis PUnit} {z : Analysis β} (hy : Calm y fun _ => True)
    (hz : Follows Q loop targets before z done) : Follows Q loop targets before (if b then y >>= fun _ => z else z) done := by
  split
  · exact follows_calm hy fun _ _ => hz
  · exact hz

theorem tracks_forList {T : β → List Expr} {as : List α} (hf : ∀ a ∈ as, Tracks loop targets [] (f a) T) :
    Tracks loop targets before (forList f as) fun bs => before ++ bs.flatMap T := by
  induction as generalizing before with
  | nil => exact tracks_pure (by simp)
  | cons a as ih =>
    refine follows_bind ((hf a List.mem_cons_self).from before) fun b => ?_
    refine follows_bind (ih fun a ha => hf a (List.mem_cons_of_mem _ ha)) fun bs => tracks_pure ?_
    rw [List.flatMap_cons, List.append_assoc]

/-- One expression is made for every element of the list. -/
theorem tracks_forList_map {g : β → Expr} {as : List α} (hf : ∀ a ∈ as, Tracks loop targets [] (f a) fun b => [g b]) :
    Tracks loop targets before (forList f as) fun bs => before ++ bs.map g :=
  Follows.congr (tracks_forList hf) fun bs => by rw [List.map_eq_flatMap]

/-- Nothing is made for any element of the list. -/
theorem tracks_forList_nil {as : List α} (hf : ∀ a ∈ as, Tracks loop targets [] (f a) fun _ => []) :
    Tracks loop targets before (forList f as) fun _ => before :=
  Follows.congr (tracks_forList hf) fun bs => by rw [List.flatMap_eq_nil_iff.2 fun _ _ => rfl, List.append_nil]

theorem tracks_forM {f : α → Analysis PUnit} (hf : ∀ a, Tracks loop targets before (f a) fun _ => before) (as : List α) :
    Tracks loop targets before (as.forM f) fun _ => before := by
  induction as with
  | nil => exact tracks_pure rfl
  | cons a as ih =>
    rw [List.forM_eq_forM, List.forM_cons]
    exact follows_bind (hf a) fun _ => ih

/-! ## Scopes -/

theorem ok_of_nested {c c' : Context} {a : α} (h : nested x c = (.ok a, c')) : ∃ c₁, x c = (.ok a, c₁) ∧ c' = { c₁ with scope := c.scope } := by
  simp only [nested, Prod.mk.injEq] at h
  obtain ⟨hr, rfl⟩ := h
  exact ⟨(x c).2, Prod.ext hr rfl, rfl⟩

/-- The scope is put back. -/
theorem tracks_nested (h : Follows (fun _ => True) loop targets before x after) : Tracks loop targets before (nested x) after := by
  intro c hl a c' hx
  obtain ⟨c₁, h₁, rfl⟩ := ok_of_nested hx
  obtain ⟨_, rs, hm, ha⟩ := h c hl a c₁ h₁
  exact ⟨hl, rs, ⟨hm.size, hm.prim, hm.marked, hm.settled⟩, ha⟩

theorem tracks_located (h : Tracks loop targets before x after) : Tracks loop targets before (located x) after := by
  intro c hl a c' hx
  unfold located at hx
  dsimp only at hx
  split at hx
  · cases hx
  · exact h c hl a c' hx

/-- The analysis goes on where a `recur` may rebind other locals. -/
theorem follows_modifyScope {g : Scope → Scope} {z : PUnit → Analysis β} (hg : ∀ s, s.loopLocals = loop → (g s).loopLocals = loop')
    (hz : Follows Q loop' targets before (z ⟨⟩) done) : Follows Q loop targets before (modifyScope g >>= z) done := by
  intro c hl b c' h
  obtain ⟨hq, rs, hm, hb⟩ := hz (c.modifyScope g) (hg _ hl) b c' h
  exact ⟨hq, rs, ⟨hm.size, hm.prim, hm.marked, hm.settled⟩, hb⟩

theorem tracks_arm {branch : Nat} (h : Tracks loop targets before x after) : Tracks loop targets before (arm branch x) after :=
  tracks_nested (follows_calm (calm_addPath _ _) fun _ _ => follows_modifyScope (fun _ h => h) h.ends)

end Analysis

/-! ## Locals -/

namespace Context

/-- The locals are the same, and what is known of their values. -/
def SameKinds (c c' : Context) : Prop := c'.bindings.size = c.bindings.size ∧
  ∀ b, ((c'.binding b).prim, (c'.binding b).recurMismatch) = ((c.binding b).prim, (c.binding b).recurMismatch)

theorem sameKinds_modifyBinding (c : Context) (id : Nat) {f : Binding → Binding}
    (hk : ∀ b, ((f b).prim, (f b).recurMismatch) = (b.prim, b.recurMismatch)) : SameKinds c (c.modifyBinding id f) := by
  refine ⟨Array.size_modify, fun b => ?_⟩
  rw [binding_modify]
  split
  · exact hk _
  · rfl

theorem sameKinds_captureFrom (x : Nat) : ∀ (fuel m : Nat) (c : Context), SameKinds c (captureFrom x fuel m c)
  | 0, _, _ => ⟨rfl, fun _ => rfl⟩
  | fuel + 1, m, c => by
    rw [captureFrom]
    split
    · split
      · exact sameKinds_modifyBinding c x fun _ => rfl
      · exact ⟨rfl, fun _ => rfl⟩
    · dsimp only
      split
      · exact sameKinds_captureFrom x fuel _ (c.capture _ x)
      · exact ⟨rfl, fun _ => rfl⟩

theorem sameKinds_closeOver (c : Context) (x : Nat) : SameKinds c (c.closeOver x) := by
  unfold closeOver
  split
  · exact sameKinds_captureFrom x _ _ c
  · exact ⟨rfl, fun _ => rfl⟩

theorem sameKinds_referenceLocal (c : Context) (x : Nat) (tag : Option String) : SameKinds c (c.referenceLocal x tag).2 := by
  unfold referenceLocal
  dsimp only
  split
  · split <;> exact sameKinds_closeOver c x
  · exact sameKinds_closeOver c x

theorem marks_addBinding (c : Context) (b : Binding) : Marks [] c (c.addBinding b).2 ∅ := by
  have hsize : (c.addBinding b).2.bindings.size = c.bindings.size + 1 := Array.size_push _
  refine marks_of_kinds (hsize ▸ Nat.le_succ _) fun x hx => ?_
  rw [addBinding, binding_push, if_neg (Nat.ne_of_lt hx)]

end Context

namespace Analysis

variable {α : Type} {loop : Option (List Nat)} {targets : List Nat} {before : List Expr}

theorem tracks_change {g : Context → α × Context} (hk : ∀ c : Context, c.Marks [] (g c).2 ∅)
    (hl : ∀ c : Context, (g c).2.scope.loopLocals = c.scope.loopLocals) : Tracks loop targets before (change g) fun _ => before :=
  fun c hc a c' hx => by
    cases hx
    exact ⟨(hl c).trans hc, ∅, (hk c).mono (List.nil_subset _), (Set.union_empty _).symm⟩

theorem tracks_modify {g : Context → Context} (hk : ∀ c : Context, c.SameKinds (g c))
    (hl : ∀ c : Context, (g c).scope = c.scope) : Tracks loop targets before (modify g) fun _ => before :=
  tracks_change (g := fun c => ((⟨⟩ : PUnit), g c)) (fun c => Context.marks_of_kinds (Nat.le_of_eq (hk c).1.symm) fun b _ => (hk c).2 b)
    fun c => congrArg Scope.loopLocals (hl c)

theorem tracks_referenceLocal (x : Nat) (tag : Option String) : Tracks loop targets before (referenceLocal x tag) fun _ => before :=
  tracks_change (fun c => Context.marks_of_kinds (Nat.le_of_eq (c.sameKinds_referenceLocal x tag).1.symm)
    fun b _ => (c.sameKinds_referenceLocal x tag).2 b) fun c => congrArg Scope.loopLocals (c.scope_referenceLocal x tag)

/-- A new local has the kind that it is given, and no mark. -/
theorem registerLocal_kind {name : Symbol} {tag : Option String} {prim : Option Prim} {isArg : Bool} {id : Nat} {c c' : Context}
    (h : registerLocal name tag prim isArg c = (.ok id, c')) : id = c.bindings.size ∧ c'.bindings.size = c.bindings.size + 1 ∧
      (c'.binding id).prim = prim ∧ (c'.binding id).recurMismatch = false ∧ c.Marks [] c' ∅ ∧ c'.scope.loopLocals = c.scope.loopLocals := by
  cases h
  have hmarks := c.allocSlot.2.marks_addBinding { name, slot := c.allocSlot.1, tag, prim, isArg, method := c.scope.method, clearRoot := c.scope.clearRoot }
  have hnew := (c.allocSlot.2.binding_push { name, slot := c.allocSlot.1, tag, prim, isArg, method := c.scope.method, clearRoot := c.scope.clearRoot }
    { c.allocSlot.2.scope with env := (name, c.bindings.size) :: c.scope.env } c.bindings.size).trans (if_pos rfl)
  refine ⟨rfl, Array.size_push _, congrArg Binding.prim hnew, congrArg Binding.recurMismatch hnew, ?_, rfl⟩
  exact ⟨hmarks.size, hmarks.prim, hmarks.marked, hmarks.settled⟩

theorem tracks_registerLocal (name : Symbol) (tag : Option String) (prim : Option Prim) (isArg : Bool) :
    Tracks loop targets before (registerLocal name tag prim isArg) fun _ => before :=
  tracks_change (fun _ => (registerLocal_kind rfl).2.2.2.2.1) fun _ => rfl

theorem tracks_registerThis (name : Symbol) (tag : Option String) :
    Tracks loop targets before (change (·.registerThis name tag)) fun _ => before := tracks_change (fun c => c.marks_addBinding _) fun _ => rfl

theorem tracks_addMethod (obj : Nat) (parent : Option Nat) : Tracks loop targets before (change (·.addMethod obj parent)) fun _ => before :=
  tracks_change (fun _ => Context.marks_of_kinds (Nat.le_refl _) fun _ _ => rfl) fun _ => rfl

theorem tracks_allocSlot : Tracks loop targets before (change Context.allocSlot) fun _ => before :=
  tracks_change (fun _ => Context.marks_of_kinds (Nat.le_refl _) fun _ _ => rfl) fun _ => rfl

/-! ## New locals -/

section

variable {β : Type} {x : Analysis α} {f : α → Analysis β} {P : α → Prop} {Q : Context → Prop} {known : List Nat} {ids : α → List Nat}
  {ids' : β → List Nat} {T : β → List Expr}

/-- The analysis marks nothing, and the locals in its result are known or new. -/
def Opens (loop : Option (List Nat)) (known : List Nat) (x : Analysis α) (ids : α → List Nat) : Prop :=
  ∀ c, c.scope.loopLocals = loop → ∀ a c', x c = (.ok a, c') →
    c'.scope.loopLocals = loop ∧ c.Marks [] c' ∅ ∧ ∀ t ∈ ids a, t ∈ known ∨ c.bindings.size ≤ t

theorem opens_pure {a : α} (h : ids a = known) : Opens loop known (Pure.pure a : Analysis α) ids := by
  intro c hl a' c' hx
  cases hx
  exact ⟨hl, (Context.Quiet.refl c).marks, fun t ht => .inl (h ▸ ht)⟩

theorem Opens.mono {known' : List Nat} (h : Opens loop known x ids) (hk : known ⊆ known') : Opens loop known' x ids := fun c hl a c' hx => by
  obtain ⟨hl', hm, ha⟩ := h c hl a c' hx
  exact ⟨hl', hm, fun t ht => (ha t ht).imp_left fun h => hk h⟩

theorem opens_fail (e : CompileFault) : Opens loop known (fail e : Analysis α) ids := fun _ _ _ _ hx => by cases hx

theorem opens_bind (hx : Opens loop known x ids) (hf : ∀ a, Opens loop (ids a) (f a) ids') : Opens loop known (x >>= f) ids' := by
  intro c hl b c' h
  obtain ⟨a, c₁, h₁, h₂⟩ := bind_eq_ok h
  obtain ⟨hl₁, hm₁, ha⟩ := hx c hl a c₁ h₁
  obtain ⟨hl', hm₂, hb⟩ := hf a c₁ hl₁ b c' h₂
  refine ⟨hl', Set.union_empty ∅ ▸ hm₁.trans hm₂, fun t ht => ?_⟩
  rcases hb t ht with hi | hn
  · exact ha t hi
  · exact .inr (Nat.le_trans hm₁.size hn)

theorem opens_ofExcept {e : Except CompileFault α} (h : ∀ a, Opens loop known (f a) ids') : Opens loop known (ofExcept e >>= f) ids' := by
  cases e with
  | ok a => exact h a
  | error e => exact fun _ _ _ _ hx => by cases hx

theorem opens_registerLocal (name : Symbol) (tag : Option String) (prim : Option Prim) (isArg : Bool) :
    Opens loop known (registerLocal name tag prim isArg) fun id => known ++ [id] := by
  intro c hl id c' hx
  obtain ⟨hid, _, _, _, hm, hloop⟩ := registerLocal_kind hx
  refine ⟨hloop.trans hl, hm, fun t ht => (List.mem_append.1 ht).imp_right fun h => ?_⟩
  rw [List.mem_singleton.1 h, hid]

theorem opens_forList {f : α → Analysis Nat} {as : List α} (hf : ∀ a ∈ as, ∀ known, Opens loop known (f a) fun id => known ++ [id]) :
    Opens loop known (forList f as) fun ids => known ++ ids := by
  induction as generalizing known with
  | nil => exact opens_pure (List.append_nil known)
  | cons a as ih =>
    refine opens_bind (hf a List.mem_cons_self known) fun id => opens_bind (ih fun a ha => hf a (List.mem_cons_of_mem _ ha)) fun ids => ?_
    exact opens_pure (List.append_cons known id ids)

/-- A `recur` that aims at new locals leaves no mark on older ones. -/
theorem follows_opens (hx : Opens loop [] x ids) (hf : ∀ a, Follows Q loop (ids a) [] (f a) T) :
    Follows Q loop [] [] (x >>= f) fun _ => [] := by
  intro c hl b c' h
  obtain ⟨a, c₁, h₁, h₂⟩ := bind_eq_ok h
  obtain ⟨hl₁, hm₁, hnew⟩ := hx c hl a c₁ h₁
  obtain ⟨hq, rs, hm₂, _⟩ := hf a c₁ hl₁ b c' h₂
  have hm : c.Marks (ids a) c' (∅ ∪ rs) := (hm₁.mono (List.nil_subset _)).trans hm₂
  refine ⟨hq, ∅, hm.close (fun t ht => ?_) (fun r hr => hr.elim), (Set.union_empty _).symm⟩
  exact (hnew t ht).resolve_left List.not_mem_nil

end

end Analysis

end LispMachine
