import LispMachine.Proofs.Analyze.Units
import LispMachine.Session
/-!
# The checker accepts what a session compiles

Whatever the world and the options are: a unit that a session gives for a form is accepted by the checker
(`compile_verify`), and so is every unit inside it.
-/
namespace LispMachine

namespace Session

open Analysis Analyze

/-- An analysis of a form starts in a tidy context. -/
theorem tidy_start (options : CompileOptions) (w : World) (f : Form) : Context.Tidy (Context.moveTo { options, world := w } f) := by
  refine (moveTo_quiet f _).tidy ⟨⟨fun x m h => ?_, fun o b hb => ?_⟩, fun e he => ?_, ⟨fun m hm => ?_, fun ts hts => ?_⟩⟩
  · exact absurd (Context.lt_of_method_eq_some h) (Nat.not_lt_zero x)
  · cases hb
  · cases he
  · cases hm
  · cases hts

theorem analyzing_eq_ok {α : Type} {s : Session} {f : Form} {x : Analysis α} {a : α} (h : (s.analyzing f x).1 = .ok a) :
    ∃ c, x (Context.moveTo { options := s.options, world := s.world } f) = (.ok a, c) := by
  unfold analyzing at h
  rcases hx : x (Context.moveTo { options := s.options, world := s.world } f) with ⟨r, c⟩
  rw [hx] at h
  cases r with
  | ok a' =>
    cases h
    exact ⟨c, rfl⟩
  | error e => cases h
  | cut => cases h

theorem verify_compileThunk {p : Place} {c : Context} (f : Form) :
    Yields p c (compileThunk f) fun u _ => u.verify = .ok () := by
  refine yields_bind (fine_form Emit.sustained_verify allowance .expression _ p c) fun e c₁ _ => ?_
  split
  · exact yields_pure fun c' _ he => (he.fitted Demand.noConfusion none false).2.1
  · exact yields_fail _

/-- The unit of a form is accepted, with every unit inside it. -/
theorem compile_verify (s : Session) (f : Form) {u : CompiledUnit} (h : (s.compile f).1 = .ok u) : u.verify = .ok () := by
  obtain ⟨c, hc⟩ := analyzing_eq_ok h
  have hyields : ∀ p c, Yields p c (Expand.fully allowance f >>= compileThunk) fun u _ => u.verify = .ok () :=
    fun p c => yields_calm (aside_fully allowance f).calm fun f c₁ _ => verify_compileThunk f
  obtain ⟨_, _, _, hu⟩ := hyields _ _ (tidy_start s.options s.world f) ⟨0, Nat.zero_le _, rfl⟩ u c hc
  exact hu c (.refl c)

/-- `(if true [(fn* [x] x)] nil)`. -/
def choiceForm : Form := .list [Form.sym "if", .bool true,
  .ofVector [.list [Form.sym "fn*", .ofVector [Form.sym "x"], Form.sym "x"] none], .nil] none

theorem compile_verify_choice : ∃ u, (Session.compile (.start {}) choiceForm).1 = .ok u ∧ u.verify = .ok () := by
  have hok : (Session.compile (.start {}) choiceForm).1.isOk = true := by decide +kernel
  obtain ⟨u, hu⟩ := Result.exists_of_isOk hok
  exact ⟨u, hu, compile_verify _ _ hu⟩

end Session

end LispMachine
