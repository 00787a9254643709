import LispMachine.Analyze.Form
import LispMachine.Proofs.Analyze.Logic
/-!
# Steps beside the tables

Much of what an analysis does is to look something up, to expand a form or to run a program.  Such a step may change the
world, draw new paths and give warnings, but it leaves alone the scope and the tables of locals, methods and objects, whether
it succeeds or not (`Aside`).
-/
namespace LispMachine

/-- Nothing but the world, the paths and the warnings differs. -/
def Context.Beside (c c' : Context) : Prop := ∃ w ps ws, c' = { c with world := w, paths := ps, warnings := ws }

namespace Context

variable {c c' c'' : Context}

theorem Beside.refl (c : Context) : c.Beside c := ⟨c.world, c.paths, c.warnings, rfl⟩

theorem Beside.trans (h : c.Beside c') (h' : c'.Beside c'') : c.Beside c'' := by
  obtain ⟨w, ps, ws, rfl⟩ := h
  obtain ⟨w', ps', ws', rfl⟩ := h'
  exact ⟨w', ps', ws', rfl⟩

theorem Beside.quiet (h : c.Beside c') : c.Quiet c' := by
  obtain ⟨w, ps, ws, rfl⟩ := h
  exact quiet_of_eq rfl rfl rfl rfl

end Context

namespace Analysis

variable {α β : Type} {x : Analysis α} {f : α → Analysis β}

/-- However the analysis ends, it has left alone the scope and the tables of locals, methods and objects. -/
def Aside (x : Analysis α) : Prop := ∀ c : Context, c.Beside (x c).2

theorem Aside.calm (h : Aside x) : Calm x fun _ => True := by
  intro c a c' hx
  have hc := (h c).quiet
  rw [hx] at hc
  exact ⟨hc, trivial⟩

theorem aside_pure (a : α) : Aside (Pure.pure a : Analysis α) := .refl

theorem aside_fail (e : CompileFault) : Aside (fail e : Analysis α) := .refl

theorem aside_cut : Aside (cut : Analysis α) := .refl

theorem aside_read (g : Context → α) : Aside (read g) := .refl

theorem aside_ofExcept (e : Except CompileFault α) : Aside (ofExcept e) := by
  cases e with
  | ok a => exact aside_pure a
  | error e => exact aside_fail e

theorem Aside.bind (hx : Aside x) (hf : ∀ a, Aside (f a)) : Aside (x >>= f) := by
  intro c
  have h := hx c
  rcases hc : x c with ⟨a | e | _, c₁⟩ <;> rw [hc] at h
  · rw [bind_of_ok hc]
    exact h.trans (hf a c₁)
  · rw [bind_of_error hc]
    exact h
  · rw [bind_of_cut hc]
    exact h

/-- What only looks at the context. -/
theorem aside_reading {g : Context → α} (hf : ∀ a, Aside (f a)) : Aside (read g >>= f) := (aside_read g).bind hf

/-- A step that may be left out. -/
theorem aside_if {b : Prop} [Decidable b] {y : Analysis PUnit} (hy : Aside y) (hx : Aside x) :
    Aside (if b then y >>= fun _ => x else x) := by
  split
  · exact hy.bind fun _ => hx
  · exact hx

theorem aside_changeWorld (g : World → α × World) : Aside (changeWorld g) := fun c => ⟨(g c.world).2, c.paths, c.warnings, rfl⟩

theorem aside_run (r : Run α) (g : Value → String → CompileFault) : Aside (run r g) := by
  intro c
  simp only [run]
  rcases r c.world with ⟨a | v | _, w⟩ <;> exact ⟨w, c.paths, c.warnings, rfl⟩

theorem aside_load (u : CompiledUnit) : Aside (load u) := by
  refine (aside_changeWorld _).bind fun r => ?_
  cases r with
  | ok id => exact aside_pure id
  | error e => exact aside_fail _

theorem aside_warn (kind : WarningKind) (message : String) : Aside (warn kind message) := fun c => ⟨c.world, c.paths, _, rfl⟩

theorem aside_addPath (kind : PathKind) (parent : Option Nat) : Aside (addPath kind parent) := fun c => ⟨c.world, _, c.warnings, rfl⟩

theorem aside_reflects (what : String) : Aside (reflects what) := by
  refine aside_reading fun c => ?_
  split
  · exact aside_fail _
  · split
    · exact aside_warn _ _
    · exact aside_pure _

theorem aside_forList {f : α → Analysis β} (hf : ∀ a, Aside (f a)) (as : List α) : Aside (forList f as) := by
  induction as with
  | nil => exact aside_pure _
  | cons a as ih => exact (hf a).bind fun _ => ih.bind fun _ => aside_pure _

theorem aside_forM {f : α → Analysis PUnit} (hf : ∀ a, Aside (f a)) (as : List α) : Aside (as.forM f) := by
  induction as with
  | nil => exact aside_pure _
  | cons a as ih =>
    rw [List.forM_eq_forM, List.forM_cons]
    exact (hf a).bind fun _ => ih

end Analysis

namespace Analyze

open Analysis

/-! ## Expansion -/

theorem aside_valueOf (f : Form) : Aside (Expand.valueOf f) := aside_changeWorld _

theorem aside_runBuiltin (e : Expander) (f : Form) (args : List Form) : Aside (Expand.runBuiltin e f args) := by
  refine aside_reading fun w => ?_
  split
  · exact Aside.bind (fun c => ⟨_, c.paths, c.warnings, rfl⟩) fun _ => aside_pure _
  · exact aside_fail _

theorem aside_runFunction (v : Value) (f : Form) (args : List Form) : Aside (Expand.runFunction v f args) := by
  refine (aside_valueOf f).bind fun whole => (aside_reading fun s => aside_run _ _ : Aside Expand.visibleLocals).bind fun locals => ?_
  refine (aside_forList aside_valueOf args).bind fun args => (aside_run _ _).bind fun expansion => ?_
  split
  · exact aside_pure _
  · exact aside_reading fun _ => aside_fail _

theorem aside_invokeExpander (var : Nat) (f : Form) (args : List Form) : Aside (Expand.invokeExpander var f args) := by
  refine aside_reading fun w => ?_
  dsimp only
  split
  · exact aside_fail _
  · exact aside_runBuiltin _ f args
  · exact aside_runFunction _ f args

theorem aside_sugar (head : Symbol) (args : List Form) : Aside (Expand.sugar head args) := by
  unfold Expand.sugar
  split
  · exact aside_ofExcept _
  · refine aside_reading fun w => ?_
    split <;> exact aside_pure _

theorem aside_once (f : Form) : Aside (Expand.once f) := by
  unfold Expand.once
  split
  · refine aside_reading fun found => ?_
    split
    · exact aside_pure _
    · refine aside_reading fun w => ?_
      split
      · exact (aside_invokeExpander _ _ _).bind fun _ => aside_pure _
      · exact (aside_sugar _ _).bind fun _ => aside_pure _
  · exact aside_pure _

theorem aside_fully (fuel : Nat) (f : Form) : Aside (Expand.fully fuel f) := by
  induction fuel generalizing f with
  | zero => exact aside_cut
  | succ fuel ih =>
    refine (aside_once f).bind fun o => ?_
    split
    · exact ih _
    · exact aside_pure _

/-! ## Names and members -/

theorem aside_checkKeys (keys : List Form) : Aside (checkKeys keys) := by
  unfold checkKeys
  split
  · exact aside_fail _
  · exact aside_pure _

theorem aside_resolveMember (k : Class) (kind : HostKind) (name : String) (args : List Expr) (missing : CompileFault) :
    Aside (resolveMember k kind name args missing) := by
  refine aside_reading fun w => ?_
  dsimp only
  split
  · exact (aside_ofExcept _).bind fun _ => aside_pure _
  · exact aside_fail _

theorem aside_classNamed? (f : Form) : Aside (classNamed? f) := by
  unfold classNamed?
  split
  · refine aside_reading fun found => ?_
    split
    · exact aside_pure _
    · exact aside_reading fun _ => aside_pure _
  · exact aside_pure _

/-! ## Units -/

theorem aside_unitName (localName : Option String) : Aside (unitName localName) :=
  aside_reading fun _ => (aside_changeWorld _).bind fun _ => aside_pure _

theorem aside_emitUnit (obj : Nat) (kind : UnitKind) (methods : List FnMethod) : Aside (emitUnit obj kind methods) :=
  aside_reading fun _ => aside_ofExcept _

theorem aside_resolveProtocol (s : Symbol) : Aside (resolveProtocol s) := by
  refine aside_reading fun w => ?_
  split
  · exact aside_fail _
  · split
    · exact aside_pure _
    · exact aside_fail _

theorem aside_checkDeclared (protocols : List (Symbol × Nat)) (methods : List TypeMethod) : Aside (checkDeclared protocols methods) := by
  refine aside_reading fun w => aside_forM (fun m => ?_) methods
  split
  · exact aside_pure _
  · exact aside_fail _

theorem aside_typeParts (forms : List Form) : Aside (typeParts forms) := by
  induction forms with
  | nil => exact aside_pure _
  | cons f fs ih =>
    unfold typeParts
    split
    · exact (aside_resolveProtocol _).bind fun _ => ih.bind fun _ => aside_pure _
    · split
      · exact ih.bind fun _ => aside_pure _
      · exact aside_fail _

end Analyze

end LispMachine
