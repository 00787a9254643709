import LispMachine.Proofs.Analyze.Asides
import LispMachine.Proofs.Analyze.Marks
/-!
# Whose locals a function captures

A local that is visible belongs to the method of the use or to a method around it (`Context.Around`).  On the way from the use
to the method of the local every function carries the local; so what a function captures belongs to the method in which the
function is made, or to one around that.  The analysis keeps this up (`Context.Rooted`).  It follows that a function captures
nothing if it is made where there is no method (`roots_captureRefs`).

`Roots first home c m x Q` says of an analysis that starts in the method `m`, in a rooted context, and succeeds: the context is
rooted again, the method is the same, and `Q` holds of the result.  Where each function is made is not written in the tables,
so the list of these homes goes along with the context and grows with it (`Context.Later`).
-/
namespace LispMachine

/-- For each function and anonymous type the method in which it is made, if it is in one.  Declared types see no locals from
outside and are not listed. -/
abbrev Homes := Nat → Option (Option Nat)

/-- The homes, with one for the next object. -/
def Homes.add (home : Homes) (c : Context) (h : Option (Option Nat)) : Homes := Function.update home c.objects.size h

/-- The local belongs to the method or to one around it, and all methods on the way are at least as young as `first`. -/
inductive Context.Around (first : Nat) (c : Context) : Option Nat → Nat → Prop
  | own {m x : Nat} : (c.binding x).method = some m → Around first c (some m) x
  | outer {m x : Nat} : first ≤ m → m < c.methods.size → Around first c (c.method m).parent x → Around first c (some m) x

namespace Context

/-- Visible locals lie around the place of the analysis and captured ones around the home of what captures them, and the methods
of a function are in the method in which the function is made.  Nothing is said of methods older than `first`. -/
structure Rooted (first : Nat) (home : Homes) (c : Context) : Prop where
  young : first ≤ c.methods.size
  env : ∀ e ∈ c.scope.env, c.Around first c.scope.method e.2
  methods : ∀ m, first ≤ m → m < c.methods.size →
    (c.method m).obj < c.objects.size ∧ ∀ h, home (c.method m).obj = some h → (c.method m).parent = h
  closes : ∀ o h, home o = some h → ∀ x ∈ (c.object o).closes, c.Around first h x

/-- What is known of locals, methods and functions in the first context holds of them in the second. -/
structure Later (home : Homes) (c : Context) (home' : Homes) (c' : Context) : Prop where
  homes : ∀ o < c.objects.size, home' o = home o
  objects : c.objects.size ≤ c'.objects.size
  methods : c.methods.size ≤ c'.methods.size
  frame : ∀ m < c.methods.size, ((c'.method m).obj, (c'.method m).parent) = ((c.method m).obj, (c.method m).parent)
  owner : ∀ x m, (c.binding x).method = some m → (c'.binding x).method = some m

variable {first : Nat} {home home' home'' : Homes} {c c' c'' : Context} {m : Option Nat}

theorem Later.refl (home : Homes) (c : Context) : Later home c home c :=
  ⟨fun _ _ => rfl, Nat.le_refl _, Nat.le_refl _, fun _ _ => rfl, fun _ _ h => h⟩

theorem Later.trans (h : Later home c home' c') (h' : Later home' c' home'' c'') : Later home c home'' c'' :=
  ⟨fun o ho => (h'.homes o (Nat.lt_of_lt_of_le ho h.objects)).trans (h.homes o ho), Nat.le_trans h.objects h'.objects,
    Nat.le_trans h.methods h'.methods, fun m hm => (h'.frame m (Nat.lt_of_lt_of_le hm h.methods)).trans (h.frame m hm),
    fun x m hx => h'.owner x m (h.owner x m hx)⟩

/-- A change that adds no local, no method and no object. -/
theorem later_of_eq (hb : ∀ x, (c'.binding x).method = (c.binding x).method) (hm : c'.methods = c.methods)
    (ho : c'.objects.size = c.objects.size) : Later home c home c' := by
  refine ⟨fun _ _ => rfl, Nat.le_of_eq ho.symm, Nat.le_of_eq (congrArg Array.size hm.symm), fun m _ => ?_, fun x m h => (hb x).trans h⟩
  rw [method, method, hm]

theorem Later.obj_eq (h : Later home c home' c') {k : Nat} (hk : k < c.methods.size) : (c'.method k).obj = (c.method k).obj :=
  (Prod.mk.inj (h.frame k hk)).1

theorem Later.parent_eq (h : Later home c home' c') {k : Nat} (hk : k < c.methods.size) : (c'.method k).parent = (c.method k).parent :=
  (Prod.mk.inj (h.frame k hk)).2

theorem Later.around (h : Later home c home' c') {m : Option Nat} {x : Nat} : c.Around first m x → c'.Around first m x
  | .own hx => .own (h.owner _ _ hx)
  | .outer hf hm hx => by
    refine .outer hf (Nat.lt_of_lt_of_le hm h.methods) ?_
    rw [h.parent_eq hm]
    exact h.around hx

theorem not_around_none {x : Nat} : ¬ c.Around first none x := fun h => by cases h

theorem Rooted.lookup (h : c.Rooted first home) {s : Symbol} {x : Nat} (hx : c.lookupLocal? s = some x) :
    c.Around first c.scope.method x := by
  unfold lookupLocal? at hx
  split at hx
  · cases hx
  · obtain ⟨e, he, rfl⟩ := Option.map_eq_some_iff.1 hx
    exact h.env e (List.mem_of_find?_eq_some he)

/-- What is visible, what is new and what is newly captured decide whether a later context is rooted. -/
theorem Rooted.later (h : c.Rooted first home) (hl : Later home c home' c')
    (henv : ∀ e ∈ c'.scope.env, c'.Around first c'.scope.method e.2)
    (hmethods : ∀ m, c.methods.size ≤ m → m < c'.methods.size →
      (c'.method m).obj < c'.objects.size ∧ ∀ h, home' (c'.method m).obj = some h → (c'.method m).parent = h)
    (hcloses : ∀ o h, home' o = some h → ∀ x ∈ (c'.object o).closes,
      home o = some h ∧ x ∈ (c.object o).closes ∨ c'.Around first h x) : c'.Rooted first home' := by
  refine ⟨Nat.le_trans h.young hl.methods, henv, fun m hf hm => ?_, fun o r hr x hx => ?_⟩
  · rcases Nat.lt_or_ge m c.methods.size with hold | hnew
    · obtain ⟨hobj, hparent⟩ := h.methods m hf hold
      rw [hl.obj_eq hold, hl.parent_eq hold, hl.homes _ hobj]
      exact ⟨Nat.lt_of_lt_of_le hobj hl.objects, hparent⟩
    · exact hmethods m hnew hm
  · rcases hcloses o r hr x hx with ⟨hr, hx⟩ | hx
    · exact hl.around (h.closes o r hr x hx)
    · exact hx

/-- A change that adds no method, no home and nothing visible. -/
theorem Rooted.same (h : c.Rooted first home) (hl : Later home c home c') (hm : c'.methods.size = c.methods.size)
    (hs : (c'.scope.method, c'.scope.env) = (c.scope.method, c.scope.env))
    (hcloses : ∀ o h, home o = some h → ∀ x ∈ (c'.object o).closes, x ∈ (c.object o).closes ∨ c'.Around first h x) :
    c'.Rooted first home := by
  obtain ⟨hmethod, henv⟩ := Prod.mk.inj hs
  refine h.later hl (fun e he => ?_) (fun m hle hlt => ?_) fun o r hr x hx => (hcloses o r hr x hx).imp_left (⟨hr, ·⟩)
  · rw [hmethod]
    exact hl.around (h.env e (henv ▸ he))
  · exact absurd hlt (Nat.not_lt_of_le (hm ▸ hle))

/-! ## Captures -/

theorem object_capture (c : Context) (obj x o : Nat) :
    ∀ y ∈ ((c.capture obj x).object o).closes, y ∈ (c.object o).closes ∨ obj = o ∧ y = x := by
  intro y hy
  simp only [capture, object, Array.getElem?_modify] at hy
  split at hy
  · cases ho : c.objects[o]? with
    | none =>
      rw [ho] at hy
      cases hy
    | some frame =>
      rw [object, ho]
      rw [ho] at hy
      simp only [Option.map_some, Option.getD_some] at hy
      split at hy
      · exact .inl hy
      · exact (List.mem_append.1 hy).imp_right fun hy => ⟨‹obj = o›, List.mem_singleton.1 hy⟩
  · exact .inl hy

theorem later_capture (home : Homes) (c : Context) (obj x : Nat) : Later home c home (c.capture obj x) :=
  later_of_eq (fun _ => rfl) rfl Array.size_modify

theorem later_modifyBinding (home : Homes) (c : Context) (x : Nat) {f : Binding → Binding} (hf : ∀ b, (f b).method = b.method) :
    Later home c home (c.modifyBinding x f) := by
  refine later_of_eq (fun y => ?_) rfl rfl
  rw [binding_modify]
  split
  · exact hf _
  · rfl

/-- A function may capture what lies around its home. -/
theorem Rooted.capture (h : c.Rooted first home) {obj x : Nat} (hx : ∀ r, home obj = some r → c.Around first r x) :
    (c.capture obj x).Rooted first home := by
  refine h.same (later_capture home c obj x) rfl rfl fun o r hr y hy => ?_
  rcases c.object_capture obj x o y hy with hy | ⟨rfl, rfl⟩
  · exact .inl hy
  · exact .inr ((later_capture home c obj y).around (hx r hr))

theorem Rooted.modifyBinding (h : c.Rooted first home) (x : Nat) {f : Binding → Binding} (hf : ∀ b, (f b).method = b.method) :
    (c.modifyBinding x f).Rooted first home := h.same (later_modifyBinding home c x hf) rfl rfl fun _ _ _ _ hy => .inl hy

/-- The walk stops at the method of the local, so the homes of the functions on the way have the local around them. -/
theorem Rooted.captureFrom (x : Nat) : ∀ (fuel m : Nat) {c : Context}, c.Rooted first home → c.Around first (some m) x →
    Later home c home (captureFrom x fuel m c) ∧ (captureFrom x fuel m c).Rooted first home
  | 0, _, c, h, _ => ⟨.refl home c, h⟩
  | fuel + 1, m, c, h, hx => by
    rw [Context.captureFrom]
    by_cases hown : (c.binding x).method = some m
    · rw [if_pos (beq_iff_eq.2 hown)]
      split
      · exact ⟨later_modifyBinding home c x fun _ => rfl, h.modifyBinding x fun _ => rfl⟩
      · exact ⟨.refl home c, h⟩
    · rw [if_neg (mt beq_iff_eq.1 hown)]
      cases hx with
      | own hx => exact absurd hx hown
      | outer hf hm hx =>
        have hcapture : (c.capture (c.method m).obj x).Rooted first home := h.capture fun r hr => (h.methods m hf hm).2 r hr ▸ hx
        have hlater := later_capture home c (c.method m).obj x
        dsimp only
        cases hp : (c.method m).parent with
        | none => exact absurd (hp ▸ hx) not_around_none
        | some p =>
          obtain ⟨hl, hr⟩ := hcapture.captureFrom x fuel p (hlater.around (hp ▸ hx))
          exact ⟨hlater.trans hl, hr⟩

theorem Rooted.closeOver (h : c.Rooted first home) {x : Nat} (hx : c.Around first c.scope.method x) :
    Later home c home (c.closeOver x) ∧ (c.closeOver x).Rooted first home := by
  unfold Context.closeOver
  split
  · rename_i m hm
    exact h.captureFrom x _ m (hm ▸ hx)
  · exact ⟨.refl home c, h⟩

theorem referenceLocal_eq (c : Context) (x : Nat) (tag : Option String) :
    ∃ uses, (c.referenceLocal x tag).2 = { c.closeOver x with uses } := by
  unfold referenceLocal
  dsimp only
  split
  · split <;> exact ⟨_, rfl⟩
  · exact ⟨_, rfl⟩

theorem Rooted.referenceLocal (h : c.Rooted first home) {x : Nat} (hx : c.Around first c.scope.method x) (tag : Option String) :
    Later home c home (c.referenceLocal x tag).2 ∧ (c.referenceLocal x tag).2.Rooted first home := by
  obtain ⟨uses, heq⟩ := referenceLocal_eq c x tag
  obtain ⟨hl, hr⟩ := h.closeOver hx
  have huses : Later home (c.closeOver x) home { c.closeOver x with uses } := later_of_eq (fun _ => rfl) rfl rfl
  rw [heq]
  exact ⟨hl.trans huses, hr.same huses rfl rfl fun _ _ _ _ hx => .inl hx⟩

/-! ## New locals, functions and methods -/

theorem later_addBinding (home : Homes) (c : Context) (b : Binding) : Later home c home (c.addBinding b).2 := by
  refine ⟨fun _ _ => rfl, Nat.le_refl _, Nat.le_refl _, fun _ _ => rfl, fun x m hx => ?_⟩
  rw [addBinding, binding_push, if_neg (Nat.ne_of_lt (lt_of_method_eq_some hx))]
  exact hx

theorem around_addBinding {b : Binding} {k : Nat} (hb : b.method = some k) : (c.addBinding b).2.Around first (some k) (c.addBinding b).1 := by
  refine .own ?_
  rw [addBinding, binding_push, if_pos rfl]
  exact hb

theorem Rooted.addBinding (h : c.Rooted first home) {b : Binding} {k : Nat} (hk : c.scope.method = some k) (hb : b.method = some k) :
    (c.addBinding b).2.Rooted first home := by
  refine h.later (later_addBinding home c b) (fun e he => ?_) (fun m hle hlt => absurd hlt (Nat.not_lt_of_le hle)) fun o r hr x hx => .inl ⟨hr, hx⟩
  rcases List.mem_cons.1 he with rfl | he
  · exact (show c.scope.method = some k from hk) ▸ around_addBinding hb
  · exact (later_addBinding home c b).around (h.env e he)

theorem size_allocSlot (c : Context) : c.allocSlot.2.methods.size = c.methods.size := by
  unfold allocSlot
  dsimp only
  split
  · exact Array.size_modify
  · rfl

theorem later_allocSlot (home : Homes) (c : Context) : Later home c home c.allocSlot.2 := by
  refine ⟨fun _ _ => rfl, Nat.le_refl _, Nat.le_of_eq c.size_allocSlot.symm, fun m _ => ?_, fun _ _ hx => hx⟩
  unfold allocSlot
  dsimp only
  split
  · simp only [method, Array.getElem?_modify]
    split
    · cases c.methods[m]? <;> rfl
    · rfl
  · rfl

theorem Rooted.allocSlot (h : c.Rooted first home) : c.allocSlot.2.Rooted first home :=
  h.same (later_allocSlot home c) c.size_allocSlot rfl fun _ _ _ _ hx => .inl hx

theorem later_addObject (home : Homes) (c : Context) (name : String) (kind : ObjectKind) (once : Bool) (h : Option (Option Nat)) :
    Later home c (home.add c h) (c.addObject name kind once).2 := by
  have hsize : (c.addObject name kind once).2.objects.size = c.objects.size + 1 := Array.size_push _
  exact ⟨fun o ho => Function.update_of_ne (Nat.ne_of_lt ho) _ _, hsize ▸ Nat.le_succ _, Nat.le_refl _, fun _ _ => rfl, fun _ _ hx => hx⟩

theorem Rooted.addObject (hc : c.Rooted first home) (name : String) (kind : ObjectKind) (once : Bool) (h : Option (Option Nat)) :
    (c.addObject name kind once).2.Rooted first (home.add c h) := by
  have hl := later_addObject home c name kind once h
  refine hc.later hl (fun e he => hl.around (hc.env e he)) (fun m hle hlt => absurd hlt (Nat.not_lt_of_le hle)) fun o r hr x hx => .inl ?_
  rcases eq_or_ne o c.objects.size with rfl | hne
  · simp only [Context.addObject, object, Array.getElem?_push_size, Option.getD_some] at hx
    cases hx
  · rw [Homes.add, Function.update_of_ne hne] at hr
    refine ⟨hr, ?_⟩
    simpa only [Context.addObject, object, Array.getElem?_push, if_neg hne] using hx

theorem method_addMethod (c : Context) (obj : Nat) (parent : Option Nat) (m : Nat) :
    (c.addMethod obj parent).2.method m = if m = c.methods.size then { obj, parent } else c.method m := by
  simp only [addMethod, method, Array.getElem?_push]
  split <;> rfl

theorem later_addMethod (home : Homes) (c : Context) (obj : Nat) (parent : Option Nat) : Later home c home (c.addMethod obj parent).2 := by
  have hsize : (c.addMethod obj parent).2.methods.size = c.methods.size + 1 := Array.size_push _
  refine ⟨fun _ _ => rfl, Nat.le_refl _, hsize ▸ Nat.le_succ _, fun m hm => ?_, fun _ _ hx => hx⟩
  rw [method_addMethod, if_neg (Nat.ne_of_lt hm)]

/-- A method is added where its function is made. -/
theorem Rooted.addMethod (h : c.Rooted first home) {obj : Nat} {parent : Option Nat} (hobj : obj < c.objects.size)
    (hp : ∀ r, home obj = some r → parent = r) : (c.addMethod obj parent).2.Rooted first home := by
  have hsize : (c.addMethod obj parent).2.methods.size = c.methods.size + 1 := Array.size_push _
  have hl := later_addMethod home c obj parent
  refine h.later hl (fun e he => hl.around (h.env e he)) (fun m hle hlt => ?_) fun o r hr x hx => .inl ⟨hr, hx⟩
  rw [hsize] at hlt
  rw [method_addMethod, if_pos (Nat.le_antisymm (Nat.le_of_lt_succ hlt) hle)]
  exact ⟨hobj, hp⟩

/-- The analysis goes on at another place, which lies inside of all that is visible there. -/
theorem Rooted.modifyScope (h : c.Rooted first home) {g : Scope → Scope}
    (he : ∀ e ∈ (g c.scope).env, c.Around first (g c.scope).method e.2) : (c.modifyScope g).Rooted first home := by
  have hl : Later home c home (c.modifyScope g) := later_of_eq (fun _ => rfl) rfl rfl
  exact h.later hl (fun e hm => hl.around (he e hm)) (fun m hle hlt => absurd hlt (Nat.not_lt_of_le hle)) fun o r hr x hx => .inl ⟨hr, hx⟩

end Context

namespace Analysis

variable {α β : Type} {first : Nat} {home home' : Homes} {c c' : Context} {m : Option Nat} {x : Analysis α} {f : α → Analysis β}
  {Q Q' : α → Prop} {R : β → Prop}

/-- An analysis in the method `m` keeps the context rooted and comes back to the method, and `Q` holds of its result. -/
def Roots (first : Nat) (home : Homes) (c : Context) (m : Option Nat) (x : Analysis α) (Q : α → Prop) : Prop :=
  c.Rooted first home → c.scope.method = m → ∀ a c', x c = (.ok a, c') →
    ∃ home', Context.Later home c home' c' ∧ c'.Rooted first home' ∧ c'.scope.method = m ∧ Q a

theorem Roots.mono (h : Roots first home c m x Q) (hq : ∀ a, Q a → Q' a) : Roots first home c m x Q' := by
  intro hc hm a c' hx
  obtain ⟨home', hl, hr, hm', ha⟩ := h hc hm a c' hx
  exact ⟨home', hl, hr, hm', hq a ha⟩

/-- The method is known. -/
theorem roots_here (h : c.Rooted first home → c.scope.method = m → Roots first home c m x Q) : Roots first home c m x Q :=
  fun hc hm => h hc hm hc hm

theorem roots_pure {a : α} (h : Q a) : Roots first home c m (Pure.pure a : Analysis α) Q := by
  intro hc hm a' c' hx
  cases hx
  exact ⟨home, .refl home c, hc, hm, h⟩

theorem roots_fail (e : CompileFault) : Roots first home c m (fail e : Analysis α) Q := fun _ _ _ _ hx => by cases hx

theorem roots_cut : Roots first home c m (cut : Analysis α) Q := fun _ _ _ _ hx => by cases hx

/-- One analysis after the other. -/
theorem roots_bind_after (hx : Roots first home c m x Q) (hf : ∀ a home₁ c₁, Context.Later home c home₁ c₁ → Q a →
    Roots first home₁ c₁ m (f a) R) : Roots first home c m (x >>= f) R := by
  intro hc hm b c' h
  obtain ⟨a, c₁, h₁, h₂⟩ := bind_eq_ok h
  obtain ⟨home₁, hl₁, hc₁, hm₁, ha⟩ := hx hc hm a c₁ h₁
  obtain ⟨home₂, hl₂, hc₂, hm₂, hb⟩ := hf a home₁ c₁ hl₁ ha hc₁ hm₁ b c' h₂
  exact ⟨home₂, hl₁.trans hl₂, hc₂, hm₂, hb⟩

/-- The second analysis does not depend on what was known before. -/
theorem roots_bind (hx : Roots first home c m x Q) (hf : ∀ a home₁ c₁, Q a → Roots first home₁ c₁ m (f a) R) :
    Roots first home c m (x >>= f) R := roots_bind_after hx fun a home₁ c₁ _ => hf a home₁ c₁

/-- What only looks at the context. -/
theorem roots_read {g : Context → α} (h : Roots first home c m (f (g c)) R) : Roots first home c m (read g >>= f) R := h

theorem roots_ofExcept {e : Except CompileFault α} (h : ∀ a, e = .ok a → Roots first home c m (f a) R) :
    Roots first home c m (ofExcept e >>= f) R := by
  cases e with
  | ok a => exact h a rfl
  | error e => exact fun _ _ _ _ hx => by cases hx

/-- A change of the tables. -/
theorem roots_change {g : Context → α × Context} (hl : c.Rooted first home → c.scope.method = m → Context.Later home c home' (g c).2)
    (hr : c.Rooted first home → c.scope.method = m → (g c).2.Rooted first home') (hs : (g c).2.scope.method = c.scope.method)
    (hq : Q (g c).1) : Roots first home c m (change g) Q := by
  intro hc hm a c' hx
  cases hx
  exact ⟨home', hl hc hm, hr hc hm, hs.trans hm, hq⟩

theorem roots_beside (first : Nat) (home : Homes) (h : c.Beside c') :
    Context.Later home c home c' ∧ (c.Rooted first home → c'.Rooted first home) ∧ c'.scope = c.scope := by
  obtain ⟨w, ps, ws, rfl⟩ := h
  have hl : Context.Later home c home { c with world := w, paths := ps, warnings := ws } := Context.later_of_eq (fun _ => rfl) rfl rfl
  exact ⟨hl, fun hc => hc.same hl rfl rfl fun _ _ _ _ hx => .inl hx, rfl⟩

theorem Aside.roots (h : Aside x) : Roots first home c m x fun _ => True := by
  intro hc hm a c' hx
  have hb := h c
  rw [hx] at hb
  obtain ⟨hl, hr, hs⟩ := roots_beside first home hb
  exact ⟨home, hl, hr hc, (congrArg Scope.method hs).trans hm, trivial⟩

/-- A step aside comes first. -/
theorem roots_aside (hx : Aside x) (hf : ∀ a c₁, Context.Later home c home c₁ → Roots first home c₁ m (f a) R) :
    Roots first home c m (x >>= f) R := by
  intro hc hm b c' h
  obtain ⟨a, c₁, h₁, h₂⟩ := bind_eq_ok h
  have hb := hx c
  rw [h₁] at hb
  obtain ⟨hl, hr, hs⟩ := roots_beside first home hb
  obtain ⟨home', hl', hr', hm', hq⟩ := hf a c₁ hl (hr hc) ((congrArg Scope.method hs).trans hm) b c' h₂
  exact ⟨home', hl.trans hl', hr', hm', hq⟩

/-- A step aside that may be left out. -/
theorem roots_if {b : Prop} [Decidable b] {y : Analysis PUnit} {z : Analysis β} (hy : Aside y)
    (hz : ∀ c, Roots first home c m z R) : Roots first home c m (if b then y >>= fun _ => z else z) R := by
  split
  · exact roots_aside hy fun _ c₁ _ => hz c₁
  · exact hz c

/-- A step aside with a look at the context before it, that may be left out. -/
theorem roots_ifRead {b : Prop} [Decidable b] {g : Context → α} {y : α → Analysis PUnit} {z : Analysis β} (hy : ∀ a, Aside (y a))
    (hz : ∀ c, Roots first home c m z R) : Roots first home c m (if b then read g >>= fun a => y a >>= fun _ => z else z) R := by
  split
  · exact roots_read (roots_aside (hy _) fun _ c₁ _ => hz c₁)
  · exact hz c

theorem roots_forList {f : α → Analysis β} {as : List α} (hf : ∀ a home₁ c₁, Context.Later home c home₁ c₁ → a ∈ as →
    Roots first home₁ c₁ m (f a) R) : Roots first home c m (forList f as) fun bs => ∀ b ∈ bs, R b := by
  induction as generalizing home c with
  | nil => exact roots_pure fun b hb => by cases hb
  | cons a as ih =>
    refine roots_bind_after (hf a home c (.refl home c) List.mem_cons_self) fun b home₁ c₁ hl hb => ?_
    refine roots_bind (ih fun a home₂ c₂ hl₂ ha => hf a home₂ c₂ (hl.trans hl₂) (List.mem_cons_of_mem _ ha)) fun bs _ _ hbs => ?_
    exact roots_pure (List.forall_mem_cons.2 ⟨hb, hbs⟩)

theorem roots_forM {f : α → Analysis PUnit} {as : List α} (hf : ∀ a home₁ c₁, Context.Later home c home₁ c₁ →
    Roots first home₁ c₁ m (f a) fun _ => True) : Roots first home c m (as.forM f) fun _ => True := by
  induction as generalizing home c with
  | nil => exact roots_pure trivial
  | cons a as ih =>
    rw [List.forM_eq_forM, List.forM_cons]
    exact roots_bind_after (hf a home c (.refl home c)) fun _ home₁ c₁ hl _ => ih fun a home₂ c₂ hl₂ => hf a home₂ c₂ (hl.trans hl₂)

/-! ## Scopes -/

/-- The scope is put back, wherever the analysis has gone on. -/
theorem roots_nested_at {c₁ : Context} {m₁ : Option Nat} {y : Analysis α} (hy : Roots first home c₁ m₁ y Q) (hxy : x c = y c₁)
    (hl : Context.Later home c home c₁) (hc₁ : c.Rooted first home → c₁.Rooted first home) (hm₁ : c₁.scope.method = m₁) :
    Roots first home c m (nested x) Q := by
  intro hc hm a c' h
  obtain ⟨c₂, hx, rfl⟩ := ok_of_nested h
  obtain ⟨home', hl', hr, -, ha⟩ := hy (hc₁ hc) hm₁ a c₂ (hxy ▸ hx)
  have hback : Context.Later home' c₂ home' { c₂ with scope := c.scope } := Context.later_of_eq (fun _ => rfl) rfl rfl
  refine ⟨home', (hl.trans hl').trans hback, ?_, hm, ha⟩
  exact hr.later hback (fun e he => ((hl.trans hl').trans hback).around (hc.env e he)) (fun k hle hlt => absurd hlt (Nat.not_lt_of_le hle))
    fun o r hr x hx => .inl ⟨hr, hx⟩

theorem roots_nested (h : Roots first home c m x Q) : Roots first home c m (nested x) Q :=
  roots_here fun _ hm => roots_nested_at h rfl (.refl home c) id hm

theorem roots_located (h : Roots first home c m x Q) : Roots first home c m (located x) Q := fun hc hm a c' hx =>
  h hc hm a c' (located_eq_ok hx)

/-- The method and what is visible are the same. -/
theorem roots_modifyScope {g : Scope → Scope} {z : PUnit → Analysis β} (hg : ∀ s, ((g s).method, (g s).env) = (s.method, s.env))
    (hz : ∀ c₁, Roots first home c₁ m (z ⟨⟩) R) : Roots first home c m (modifyScope g >>= z) R := by
  obtain ⟨hmethod, henv⟩ := Prod.mk.inj (hg c.scope)
  intro hc hm b c' h
  have hl : Context.Later home c home (c.modifyScope g) := Context.later_of_eq (fun _ => rfl) rfl rfl
  have hr : (c.modifyScope g).Rooted first home := hc.modifyScope fun e he => hmethod ▸ hc.env e (henv ▸ he)
  obtain ⟨home', hl', hr', hm', hb⟩ := hz (c.modifyScope g) hr (hmethod.trans hm) b c' h
  exact ⟨home', hl.trans hl', hr', hm', hb⟩

theorem roots_moveTo (f : Form) {z : PUnit → Analysis β} (hz : ∀ c₁, Roots first home c₁ m (z ⟨⟩) R) :
    Roots first home c m (modify (·.moveTo f) >>= z) R := by
  change Roots first home c m (fun c => z ⟨⟩ (c.moveTo f)) R
  unfold Context.moveTo
  split
  · exact roots_modifyScope (z := z) (fun _ => rfl) hz
  · exact hz c

theorem roots_arm {branch : Nat} (h : ∀ c, Roots first home c m x Q) : Roots first home c m (arm branch x) Q :=
  roots_nested (roots_aside (aside_addPath _ _) fun _ _ _ => roots_modifyScope (fun _ => rfl) h)

/-! ## Locals and methods -/

theorem roots_allocSlot : Roots first home c m (change Context.allocSlot) fun _ => True :=
  roots_change (fun _ _ => Context.later_allocSlot home c) (fun hc _ => hc.allocSlot) rfl trivial

theorem roots_registerThis {k : Nat} (name : Symbol) (tag : Option String) :
    Roots first home c (some k) (change (·.registerThis name tag)) fun _ => True :=
  roots_change (fun _ _ => Context.later_addBinding home c _) (fun hc hm => hc.addBinding hm hm) rfl trivial

theorem roots_registerLocal {k : Nat} (name : Symbol) (tag : Option String) (prim : Option Prim) (isArg : Bool) :
    Roots first home c (some k) (registerLocal name tag prim isArg) fun _ => True :=
  roots_change (fun _ _ => (Context.later_allocSlot home c).trans (Context.later_addBinding home c.allocSlot.2 _))
    (fun hc hm => hc.allocSlot.addBinding hm hm) rfl trivial

theorem roots_modifyBinding (id : Nat) {f : Binding → Binding} (hf : ∀ b, (f b).method = b.method) :
    Roots first home c m (modify (·.modifyBinding id f)) fun _ => True :=
  roots_change (g := fun c => ((⟨⟩ : PUnit), c.modifyBinding id f)) (fun _ _ => Context.later_modifyBinding home c id hf)
    (fun hc _ => hc.modifyBinding id hf) rfl trivial

/-- A use of a local from around. -/
theorem roots_referenceLocal {y : Nat} (hy : c.Rooted first home → c.scope.method = m → c.Around first m y) (tag : Option String) :
    Roots first home c m (referenceLocal y tag) fun _ => True :=
  roots_change (fun hc hm => (hc.referenceLocal (hm ▸ hy hc hm) tag).1) (fun hc hm => (hc.referenceLocal (hm ▸ hy hc hm) tag).2)
    (congrArg Scope.method (c.scope_referenceLocal y tag)) trivial

theorem roots_closeOver {y : Nat} (hy : c.Rooted first home → c.scope.method = m → c.Around first m y) :
    Roots first home c m (modify (·.closeOver y)) fun _ => True :=
  roots_change (g := fun c => ((⟨⟩ : PUnit), c.closeOver y)) (fun hc hm => (hc.closeOver (hm ▸ hy hc hm)).1)
    (fun hc hm => (hc.closeOver (hm ▸ hy hc hm)).2) (congrArg Scope.method (c.scope_closeOver y)) trivial

/-- What follows a change of the tables starts with the tables as they are then. -/
theorem roots_changed {g : Context → α × Context} (hl : Context.Later home c home' (g c).2)
    (hr : c.Rooted first home → c.scope.method = m → (g c).2.Rooted first home') (hs : (g c).2.scope.method = c.scope.method)
    (hf : Roots first home' (g c).2 m (f (g c).1) R) : Roots first home c m (change g >>= f) R := by
  intro hc hm b c' hx
  obtain ⟨home'', hl', hr', hm', hb⟩ := hf (hr hc hm) (hs.trans hm) b c' hx
  exact ⟨home'', hl.trans hl', hr', hm', hb⟩

/-- An object is made, with the home that is said or with none. -/
theorem roots_addObject (h : Option (Option Nat)) (name : String) (kind : ObjectKind) (once : Bool) {f : Nat → Analysis β}
    (hf : ∀ obj home₁ c₁, obj < c₁.objects.size → home₁ obj = h → Roots first home₁ c₁ m (f obj) R) :
    Roots first home c m (change (·.addObject name kind once) >>= f) R := by
  refine roots_changed (Context.later_addObject home c name kind once h) (fun hc _ => hc.addObject name kind once h) rfl ?_
  have hsize : (c.addObject name kind once).2.objects.size = c.objects.size + 1 := Array.size_push _
  exact hf c.objects.size _ _ (hsize ▸ Nat.lt_succ_self _) (Function.update_self _ _ _)

/-- A method of an object is made in the home of the object. -/
theorem roots_addMethod {obj : Nat} {parent : Option Nat} {f : Nat → Analysis β} (hobj : obj < c.objects.size)
    (hp : ∀ r, home obj = some r → parent = r)
    (hf : ∀ frame c₁, Context.Later home c home c₁ → first ≤ frame → frame < c₁.methods.size → (c₁.method frame).parent = parent →
      Roots first home c₁ m (f frame) R) : Roots first home c m (change (·.addMethod obj parent) >>= f) R := by
  refine roots_here fun hc _ => ?_
  refine roots_changed (Context.later_addMethod home c obj parent) (fun hc _ => hc.addMethod hobj hp) rfl ?_
  have hsize : (c.addMethod obj parent).2.methods.size = c.methods.size + 1 := Array.size_push _
  refine hf c.methods.size _ (Context.later_addMethod home c obj parent) hc.young (hsize ▸ Nat.lt_succ_self _) ?_
  rw [Context.method_addMethod, if_pos rfl]

end Analysis

/-! ## Methods and what they capture -/

namespace Analyze

open Analysis

variable {first : Nat} {home : Homes} {c : Context} {m : Option Nat}

/-- In a method all is visible that is visible around it. -/
theorem roots_inMethod {α : Type} {x : Analysis α} {Q : α → Prop} {frame : Nat} (hyoung : first ≤ frame) (hframe : frame < c.methods.size)
    (hp : (c.method frame).parent = m) (hx : ∀ c₁, Context.Later home c home c₁ → Roots first home c₁ (some frame) x Q) :
    Roots first home c m (inMethod frame x) Q := by
  have hin : ∀ root c₁, Context.Later home c home c₁ → Roots first home c₁ m (nested do
      modifyScope fun s => {
        method := some frame, nextSlot := 1, clearPath := some root, clearRoot := some root
        methodReturn := true, env := s.env, line := s.line, column := s.column }
      x) Q := fun root c₁ hl => roots_here fun _ hm => by
    have hscope : Context.Later home c₁ home (c₁.modifyScope fun s => {
        method := some frame, nextSlot := 1, clearPath := some root, clearRoot := some root
        methodReturn := true, env := s.env, line := s.line, column := s.column }) := Context.later_of_eq (fun _ => rfl) rfl rfl
    refine roots_nested_at (hx _ (hl.trans hscope)) rfl hscope (fun hc => hc.modifyScope fun e he => ?_) rfl
    refine .outer hyoung (Nat.lt_of_lt_of_le hframe hl.methods) ?_
    rw [hl.parent_eq hframe, hp, ← hm]
    exact hc.env e he
  refine roots_read ?_
  dsimp only
  split
  · exact hin _ c (.refl home c)
  · exact roots_aside (aside_addPath _ _) fun root c₁ hl => hin root c₁ hl

/-- What an object captures lies around its home.  Without a method around it there is nothing to capture. -/
theorem roots_captureRefs {obj : Nat} (hobj : home obj = some m) :
    Roots first home c m (captureRefs obj) fun refs => m = none → refs = [] := by
  refine roots_here fun hc _ => roots_read ?_
  have haround : ∀ x ∈ (c.object obj).closes, c.Around first m x := hc.closes obj m hobj
  cases m with
  | none =>
    rw [List.eq_nil_iff_forall_not_mem.2 fun x hx => Context.not_around_none (haround x hx)]
    exact roots_pure fun _ => rfl
  | some k =>
    have hrefs : Roots first home c (some k) (forList (referenceLocal · none) (c.object obj).closes) fun bs => ∀ b ∈ bs, True :=
      roots_forList fun x _ _ hl hx => roots_referenceLocal (fun _ _ => hl.around (haround x hx)) none
    exact hrefs.mono fun _ _ h => by cases h

theorem roots_registerParams {k : Nat} (params : List Form) (variadic : Bool) (fixed : List Nat) (rest : Option Nat) :
    Roots first home c (some k) (registerParams params variadic fixed rest) fun _ => True := by
  induction params generalizing variadic fixed rest home c with
  | nil =>
    unfold registerParams
    split
    · exact roots_fail _
    · exact roots_pure trivial
  | cons f params ih =>
    cases f with
    | symbol s info =>
      unfold registerParams
      split
      · split
        · exact roots_fail _
        · exact ih true fixed rest
      · split
        · exact roots_fail _
        · refine roots_ofExcept fun hint _ => ?_
          dsimp only
          split
          · split
            · exact roots_fail _
            · split
              · exact roots_fail _
              · exact roots_bind (roots_registerLocal _ _ _ _) fun b _ _ _ => ih variadic fixed (some b)
          · exact roots_bind (roots_registerLocal _ _ _ _) fun b _ _ _ => ih variadic (fixed ++ [b]) rest
    | _ => exact roots_fail _

/-- The object of a declared type, which has no home, carries the fields. -/
theorem roots_registerFields {k obj : Nat} (hobj : obj < c.objects.size) (hnone : home obj = none) (fields : List FieldDecl) :
    Roots first home c (some k) (registerFields obj fields) fun _ => True := by
  refine roots_forM fun f home₁ c₁ hl₁ => roots_bind_after (roots_registerLocal _ _ _ _) fun id home₂ c₂ hl₂ _ => ?_
  have hl := hl₁.trans hl₂
  have hhome : ∀ r, home₂ obj = some r → Context.Around first c₂ r id := fun r hr => by
    rw [hl.homes obj hobj, hnone] at hr
    cases hr
  let mark : Binding → Binding := fun b => { b with canBeCleared := false, isMutable := f.capture.isMutable }
  have hfield : Context.Later home₂ c₂ home₂ (c₂.modifyBinding id mark) := Context.later_modifyBinding home₂ c₂ id fun _ => rfl
  refine roots_change (g := fun c => ((⟨⟩ : PUnit), (c.modifyBinding id mark).capture obj id))
    (fun _ _ => hfield.trans (Context.later_capture home₂ _ obj id)) (fun hc _ => ?_) rfl trivial
  exact (hc.modifyBinding id (f := mark) fun _ => rfl).capture fun r hr => hfield.around (hhome r hr)

end Analyze

end LispMachine
