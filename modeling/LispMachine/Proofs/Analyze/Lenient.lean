import LispMachine.Analyze.Form
import LispMachine.Proofs.Analyze.Guards
import LispMachine.Proofs.Emit.Lenient
/-!
# Analyses with and without strict mode

Where a member access stays open, an analysis in strict mode fails and one without it may report the reflection.  So strict
mode does nothing but refuse: `Heeds` says of an analysis that in strict mode it is refused, and then reports reflection if
it is not strict and reports at all, or else it does in every mode the same and reports nothing.  Most steps look neither at
the options nor at the warnings (`Blind`).
-/
namespace LispMachine

/-- The failure of strict mode at a member access that stays open. -/
def Result.Refused {α : Type} (r : Result α) : Prop := ∃ (e : CompileError) (what : String), r = .error e ∧ e.fault = .unresolvedInStrictMode what

/-- A refusal with a place is still one. -/
theorem Result.Refused.locate {α : Type} {r : Result α} (h : r.Refused) (file : Option String) (line column : Nat) :
    Refused (match r with
      | .error e => .error (e.locate file line column)
      | r => r) := by
  obtain ⟨e, what, rfl, hfault⟩ := h
  exact ⟨_, what, rfl, (Analysis.fault_locate e file line column).trans hfault⟩

/-- How often reflection was reported. -/
def reflections (ws : List Warning) : Nat := ws.countP (·.kind == .reflection)


namespace Context

/-- The context with these options and after these warnings. -/
def under (c : Context) (o : CompileOptions) (ws : List Warning) : Context := { c with options := o, warnings := ws }

section

variable (c : Context) (o : CompileOptions) (ws : List Warning)

@[simp] theorem scope_under : (c.under o ws).scope = c.scope := rfl

@[simp] theorem binding_under (x : Nat) : (c.under o ws).binding x = c.binding x := rfl

@[simp] theorem method_under (m : Nat) : (c.under o ws).method m = c.method m := rfl

theorem capture_under (obj x : Nat) : (c.under o ws).capture obj x = (c.capture obj x).under o ws := rfl

end

end Context

namespace Analysis

variable {α β : Type} {x : Analysis α} {f : α → Analysis β}

/-- The analysis does not depend on the options and the warnings, and leaves them alone. -/
def Blind (x : Analysis α) : Prop := ∀ c o ws, x (c.under o ws) = ((x c).1, (x c).2.under o ws)

/-- Strict mode does nothing but refuse what would be reported. -/
structure Heeds (x : Analysis α) : Prop where
  options : ∀ c, (x c).2.options = c.options
  reported : ∀ c, reflections c.warnings ≤ reflections (x c).2.warnings
  strict : ∀ c, c.options.strict = true →
    (x c).1.Refused ∧ reflections c.warnings < reflections (x (c.lenient true)).2.warnings ∨
    reflections (x c).2.warnings = reflections c.warnings ∧ ∀ report, x (c.lenient report) = ((x c).1, (x c).2.lenient report)

/-! ## Blind steps -/

theorem Blind.options (h : Blind x) (c : Context) : (x c).2.options = c.options :=
  congrArg (·.2.options) (h c c.options c.warnings)

theorem Blind.warnings (h : Blind x) (c : Context) : (x c).2.warnings = c.warnings :=
  congrArg (·.2.warnings) (h c c.options c.warnings)

theorem Blind.heeds (h : Blind x) : Heeds x where
  options := h.options
  reported c := Nat.le_of_eq (congrArg reflections (h.warnings c).symm)
  strict c _ := by
    refine .inr ⟨congrArg reflections (h.warnings c), fun report => (h c (c.options.lenient report) c.warnings).trans ?_⟩
    rw [Context.lenient, h.options, ← h.warnings c]
    rfl

theorem blind_pure (a : α) : Blind (Pure.pure a : Analysis α) := fun _ _ _ => rfl

theorem blind_fail (e : CompileFault) : Blind (fail e : Analysis α) := fun _ _ _ => rfl

theorem blind_cut : Blind (cut : Analysis α) := fun _ _ _ => rfl

theorem blind_ofExcept (e : Except CompileFault α) : Blind (ofExcept e) := by
  cases e with
  | ok a => exact blind_pure a
  | error e => exact blind_fail e

theorem Blind.bind (hx : Blind x) (hf : ∀ a, Blind (f a)) : Blind (x >>= f) := by
  intro c o ws
  have h := hx c o ws
  rcases hc : x c with ⟨a | e | _, c₁⟩ <;> rw [hc] at h
  · rw [bind_of_ok h, bind_of_ok hc]
    exact hf a c₁ o ws
  · rw [bind_of_error h, bind_of_error hc]
  · rw [bind_of_cut h, bind_of_cut hc]

/-- Neither the options nor the warnings matter to what follows. -/
theorem blind_read {g : Context → α} (hg : ∀ c o ws, f (g (Context.under c o ws)) = f (g c)) (hf : ∀ a, Blind (f a)) :
    Blind (read g >>= f) := by
  intro c o ws
  change f (g (c.under o ws)) (c.under o ws) = _
  rw [hg]
  exact hf (g c) c o ws

theorem blind_world {f : World → Analysis β} (hf : ∀ w, Blind (f w)) : Blind (world >>= f) := blind_read (fun _ _ _ => rfl) hf

theorem blind_scope {f : Scope → Analysis β} (hf : ∀ s, Blind (f s)) : Blind (scope >>= f) := blind_read (fun _ _ _ => rfl) hf

theorem blind_changeWorld (g : World → α × World) : Blind (changeWorld g) := fun _ _ _ => rfl

theorem blind_modifyScope (g : Scope → Scope) : Blind (modifyScope g) := fun _ _ _ => rfl

theorem blind_run (r : Run α) (g : Value → String → CompileFault) : Blind (run r g) := by
  intro c o ws
  simp only [run, Context.under]
  rcases r c.world with ⟨a | v | _, w⟩ <;> rfl

theorem blind_load (u : CompiledUnit) : Blind (load u) := by
  refine (blind_changeWorld _).bind fun r => ?_
  cases r with
  | ok id => exact blind_pure id
  | error e => exact blind_fail _

theorem blind_forList {f : α → Analysis β} (hf : ∀ a, Blind (f a)) : ∀ as, Blind (forList f as)
  | [] => blind_pure _
  | a :: as => (hf a).bind fun _ => (blind_forList hf as).bind fun _ => blind_pure _

theorem blind_forM {f : α → Analysis PUnit} (hf : ∀ a, Blind (f a)) (as : List α) : Blind (as.forM f) := by
  induction as with
  | nil => exact blind_pure _
  | cons a as ih =>
    rw [List.forM_eq_forM, List.forM_cons]
    exact (hf a).bind fun _ => ih

/-! ## Locals -/

theorem captureFrom_under (x : Nat) (o : CompileOptions) (ws : List Warning) : ∀ (fuel m : Nat) (c : Context),
    Context.captureFrom x fuel m (c.under o ws) = (Context.captureFrom x fuel m c).under o ws
  | 0, _, _ => rfl
  | fuel + 1, m, c => by
    have ih := captureFrom_under x o ws fuel
    rw [Context.captureFrom, Context.captureFrom]
    by_cases hb : ((c.binding x).method == some m) = true
    · rw [if_pos (show (((c.under o ws).binding x).method == some m) = true from hb), if_pos hb]
      by_cases hh : c.scope.inHandler = true
      · rw [if_pos (show (c.under o ws).scope.inHandler = true from hh), if_pos hh]
        rfl
      · rw [if_neg (show ¬ (c.under o ws).scope.inHandler = true from hh), if_neg hh]
    · rw [if_neg (show ¬ (((c.under o ws).binding x).method == some m) = true from hb), if_neg hb]
      dsimp only
      rw [Context.method_under, Context.capture_under]
      cases (c.method m).parent with
      | some p => exact ih p _
      | none => rfl

theorem closeOver_under (c : Context) (x : Nat) (o : CompileOptions) (ws : List Warning) :
    (c.under o ws).closeOver x = (c.closeOver x).under o ws := by
  simp only [Context.closeOver, Context.scope_under]
  cases c.scope.method with
  | some m => exact captureFrom_under x o ws _ _ c
  | none => rfl

theorem blind_closeOver (x : Nat) : Blind (modify (·.closeOver x)) := fun c o ws =>
  congrArg (Result.ok PUnit.unit, ·) (closeOver_under c x o ws)

theorem referenceLocal_under (c : Context) (x : Nat) (tag : Option String) (o : CompileOptions) (ws : List Warning) :
    (c.under o ws).referenceLocal x tag = ((c.referenceLocal x tag).1, (c.referenceLocal x tag).2.under o ws) := by
  simp only [Context.referenceLocal, closeOver_under, Context.scope_under, Context.binding_under]
  cases (c.closeOver x).scope.method with
  | none => rfl
  | some m =>
    cases (c.closeOver x).scope.clearPath with
    | none => rfl
    | some here =>
      dsimp only
      split <;> rfl

theorem blind_referenceLocal (x : Nat) (tag : Option String) : Blind (referenceLocal x tag) := fun c o ws =>
  congrArg (fun r => (Result.ok r.1, r.2)) (referenceLocal_under c x tag o ws)

theorem blind_registerLocal (name : Symbol) (tag : Option String) (prim : Option Prim) (isArg : Bool) :
    Blind (registerLocal name tag prim isArg) := fun _ _ _ => rfl

theorem blind_registerThis (name : Symbol) (tag : Option String) : Blind (change (·.registerThis name tag)) := fun _ _ _ => rfl

theorem blind_allocSlot : Blind (change Context.allocSlot) := fun _ _ _ => rfl

theorem blind_addPath (kind : PathKind) (parent : Option Nat) : Blind (addPath kind parent) := fun _ _ _ => rfl

theorem blind_addObject (name : String) (kind : ObjectKind) (once : Bool) : Blind (change (·.addObject name kind once)) :=
  fun _ _ _ => rfl

theorem blind_addMethod (obj : Nat) (parent : Option Nat) : Blind (change (·.addMethod obj parent)) := fun _ _ _ => rfl

theorem blind_modifyBinding (x : Nat) (g : Binding → Binding) : Blind (modify (·.modifyBinding x g)) := fun _ _ _ => rfl

theorem blind_moveTo (f : Form) : Blind (modify (·.moveTo f)) := by
  intro c o ws
  change (Result.ok PUnit.unit, (c.under o ws).moveTo f) = (Result.ok PUnit.unit, (c.moveTo f).under o ws)
  unfold Context.moveTo
  cases f.line? <;> rfl

theorem blind_lookupLocal {f : Option Nat → Analysis β} (s : Symbol) (hf : ∀ r, Blind (f r)) : Blind (lookupLocal? s >>= f) :=
  blind_read (fun _ _ _ => rfl) hf

/-! ## Steps that heed strict mode -/

/-- What comes later takes no report back. -/
theorem reported_bind (hf : ∀ a, Heeds (f a)) (c : Context) :
    reflections (x c).2.warnings ≤ reflections ((x >>= f) c).2.warnings := by
  rcases hc : x c with ⟨a | e | _, c₁⟩
  · rw [bind_of_ok hc]
    exact (hf a).reported c₁
  · exact Nat.le_of_eq (by rw [bind_of_error hc])
  · exact Nat.le_of_eq (by rw [bind_of_cut hc])

theorem Heeds.bind (hx : Heeds x) (hf : ∀ a, Heeds (f a)) : Heeds (x >>= f) where
  options c := by
    have h := hx.options c
    rcases hc : x c with ⟨a | e | _, c₁⟩ <;> rw [hc] at h
    · rw [bind_of_ok hc]
      exact ((hf a).options c₁).trans h
    · rw [bind_of_error hc]
      exact h
    · rw [bind_of_cut hc]
      exact h
  reported c := Nat.le_trans (hx.reported c) (reported_bind hf c)
  strict c hs := by
    rcases hx.strict c hs with ⟨⟨e, what, he, hfault⟩, hlt⟩ | ⟨hw, hl⟩
    · refine .inl ⟨⟨e, what, ?_, hfault⟩, Nat.lt_of_lt_of_le hlt (reported_bind hf _)⟩
      rw [bind_of_error (Prod.ext he rfl : x c = (.error e, (x c).2))]
    · have ho := hx.options c
      rcases hc : x c with ⟨a | e | _, c₁⟩ <;> rw [hc] at hw hl ho
      · have hl' : ∀ report, (x >>= f) (c.lenient report) = f a (c₁.lenient report) := fun report => bind_of_ok (hl report)
        rw [bind_of_ok hc, ← hw]
        simp only [hl']
        exact (hf a).strict c₁ ((congrArg CompileOptions.strict ho).trans hs)
      · refine .inr ⟨?_, fun report => ?_⟩
        · rw [bind_of_error hc]
          exact hw
        · rw [bind_of_error (hl report), bind_of_error hc]
      · refine .inr ⟨?_, fun report => ?_⟩
        · rw [bind_of_cut hc]
          exact hw
        · rw [bind_of_cut (hl report), bind_of_cut hc]

theorem heeds_pure (a : α) : Heeds (Pure.pure a : Analysis α) := (blind_pure a).heeds

theorem heeds_fail (e : CompileFault) : Heeds (fail e : Analysis α) := (blind_fail e).heeds

/-- A blind step comes first. -/
theorem Blind.then (hx : Blind x) (hf : ∀ a, Heeds (f a)) : Heeds (x >>= f) := hx.heeds.bind hf

theorem heeds_ofExcept {e : Except CompileFault α} (hf : ∀ a, Heeds (f a)) : Heeds (ofExcept e >>= f) := (blind_ofExcept e).then hf

/-- Strict mode does not matter to what follows. -/
theorem heeds_read {g : Context → α} (hg : ∀ c report, f (g (Context.lenient c report)) = f (g c)) (hf : ∀ a, Heeds (f a)) :
    Heeds (read g >>= f) where
  options c := (hf (g c)).options c
  reported c := (hf (g c)).reported c
  strict c hs := by
    have hl : ∀ report, (read g >>= f) (c.lenient report) = f (g c) (c.lenient report) := fun report => congrFun (hg c report) _
    simp only [hl]
    exact (hf (g c)).strict c hs

theorem heeds_world {f : World → Analysis β} (hf : ∀ w, Heeds (f w)) : Heeds (world >>= f) := heeds_read (fun _ _ => rfl) hf

theorem heeds_scope {f : Scope → Analysis β} (hf : ∀ s, Heeds (f s)) : Heeds (scope >>= f) := heeds_read (fun _ _ => rfl) hf

theorem heeds_lookupLocal {s : Symbol} {f : Option Nat → Analysis β} (hf : ∀ r, Heeds (f r)) : Heeds (lookupLocal? s >>= f) :=
  heeds_read (fun _ _ => rfl) hf

/-- Another warning is given in every mode. -/
theorem heeds_warn {kind : WarningKind} (hkind : kind ≠ .reflection) (message : String) : Heeds (warn kind message) := by
  have hcount : ∀ c, reflections (warn kind message c).2.warnings = reflections c.warnings := fun c =>
    List.countP_cons_of_neg (by simpa using hkind)
  exact ⟨fun _ => rfl, fun c => Nat.le_of_eq (hcount c).symm, fun c _ => .inr ⟨hcount c, fun _ => rfl⟩⟩

theorem reflections_warn (message : String) (c : Context) :
    reflections (warn .reflection message c).2.warnings = reflections c.warnings + 1 := List.countP_cons_of_pos rfl

theorem reflects_strict {c : Context} (hs : c.options.strict = true) (what : String) :
    reflects what c = fail (.unresolvedInStrictMode what) c := by
  change (if c.options.strict = true then _ else _ : Analysis PUnit) c = _
  rw [if_pos hs]

/-- Without strict mode the access is reported, or else nothing happens. -/
theorem reflects_not_strict {c : Context} (hs : c.options.strict = false) (what : String) :
    (∃ message, reflects what c = warn .reflection message c) ∨
      c.options.warnOnReflection = false ∧ reflects what c = (.ok ⟨⟩, c) := by
  change (∃ message, (if c.options.strict = true then _ else _ : Analysis PUnit) c = _) ∨
    _ ∧ (if c.options.strict = true then _ else _ : Analysis PUnit) c = _
  rw [hs, if_neg Bool.false_ne_true]
  split
  case isTrue => exact .inl ⟨_, rfl⟩
  case isFalse h =>
    exact .inr ⟨(Bool.or_eq_false_iff.mp (Bool.eq_false_iff.mpr h)).1, rfl⟩

/-- An access that stays open is refused, or else it is reported. -/
theorem heeds_reflects (what : String) : Heeds (reflects what) where
  options c := by
    cases hs : c.options.strict with
    | true =>
      rw [reflects_strict hs]
      rfl
    | false =>
      obtain ⟨message, h⟩ | ⟨-, h⟩ := reflects_not_strict hs what
      · rw [h]
        rfl
      · rw [h]
  reported c := by
    cases hs : c.options.strict with
    | true =>
      rw [reflects_strict hs]
      exact Nat.le_refl _
    | false =>
      obtain ⟨message, h⟩ | ⟨-, h⟩ := reflects_not_strict hs what
      · rw [h, reflections_warn]
        exact Nat.le_succ _
      · exact Nat.le_of_eq (by rw [h])
  strict c hs := by
    refine .inl ⟨⟨{ fault := .unresolvedInStrictMode what }, what, by rw [reflects_strict hs]; rfl, rfl⟩, ?_⟩
    obtain ⟨message, h⟩ | ⟨h, -⟩ := reflects_not_strict (rfl : (c.lenient true).options.strict = false) what
    · rw [h, reflections_warn]
      exact Nat.lt_succ_self _
    · cases h

/-- A step that may be left out. -/
theorem heeds_if {b : Prop} [Decidable b] {y : Analysis PUnit} {z : Analysis β} (hy : Heeds y) (hz : Heeds z) :
    Heeds (if b then y >>= fun _ => z else z) := by
  split
  · exact hy.bind fun _ => hz
  · exact hz

/-- A step with a look at the context before it, that may be left out. -/
theorem heeds_ifRead {b : Prop} [Decidable b] {g : Context → α} {y : α → Analysis PUnit} {z : Analysis β}
    (hg : ∀ c report, y (g (Context.lenient c report)) = y (g c)) (hy : ∀ a, Heeds (y a)) (hz : Heeds z) :
    Heeds (if b then read g >>= fun a => y a >>= fun _ => z else z) := by
  split
  · exact heeds_read (fun c report => congrArg (· >>= fun _ => z) (hg c report)) fun a => (hy a).bind fun _ => hz
  · exact hz

theorem heeds_forList {f : α → Analysis β} (hf : ∀ a, Heeds (f a)) : ∀ as, Heeds (forList f as)
  | [] => heeds_pure _
  | a :: as => (hf a).bind fun _ => (heeds_forList hf as).bind fun _ => heeds_pure _

theorem heeds_forM {f : α → Analysis PUnit} (hf : ∀ a, Heeds (f a)) (as : List α) : Heeds (as.forM f) := by
  induction as with
  | nil => exact heeds_pure _
  | cons a as ih =>
    rw [List.forM_eq_forM, List.forM_cons]
    exact (hf a).bind fun _ => ih

theorem heeds_nested (h : Heeds x) : Heeds (nested x) where
  options := h.options
  reported := h.reported
  strict c hs := by
    refine (h.strict c hs).imp id fun ⟨hw, hl⟩ => ⟨hw, fun report => ?_⟩
    change ((x (c.lenient report)).1, { (x (c.lenient report)).2 with scope := c.scope }) = _
    rw [hl]
    rfl

theorem located_eq (x : Analysis α) (c : Context) : located x c =
    (match (x c).1 with
      | .error e => .error (e.locate (x c).2.options.file c.scope.line c.scope.column)
      | r => r, (x c).2) := by
  rcases hc : x c with ⟨a | e | _, c₁⟩ <;> rw [located, hc]

theorem snd_located (x : Analysis α) (c : Context) : (located x c).2 = (x c).2 := by rw [located_eq]

/-- The place of an error is the same in every mode. -/
theorem heeds_located (h : Heeds x) : Heeds (located x) where
  options c := by
    rw [snd_located]
    exact h.options c
  reported c := by
    rw [snd_located]
    exact h.reported c
  strict c hs := by
    rw [snd_located, snd_located]
    refine (h.strict c hs).imp (fun ⟨hr, hlt⟩ => ⟨by rw [located_eq]; exact hr.locate _ _ _, hlt⟩) fun ⟨hw, hl⟩ => ⟨hw, fun report => ?_⟩
    rw [located_eq, hl report, located_eq]
    rfl

theorem heeds_arm (h : Heeds x) (branch : Nat) : Heeds (arm branch x) :=
  heeds_nested ((blind_addPath _ _).then fun _ => (blind_modifyScope _).then fun _ => h)

end Analysis
end LispMachine
