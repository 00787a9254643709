import LispMachine.Compile.Context
import LispMachine.Expr.Basic
/-!
# Scopes of expressions

`Scoped` says of an expression in a method what its analysis takes care of: the locals of the method
that it uses are in scope, the locals that it introduces have slots of their own above those in scope, a
`recur` stands at the end of its loop and rebinds the locals of the loop, and the keys of a `case` are in
order.
-/
namespace LispMachine

namespace Context

/-- The use is of a local in scope, of the receiver, or of what another method owns. -/
def Sees (c : Context) (frame : Nat) (scope : List Nat) (r : LocalRef) : Prop :=
  (c.binding r.binding).method = some frame → (c.binding r.binding).slot = 0 ∨ r.binding ∈ scope

/-- A new local of the method, in a slot above those in scope. -/
structure Introduces (c : Context) (frame bound b : Nat) : Prop where
  method : (c.binding b).method = some frame
  pos : 0 < (c.binding b).slot
  above : bound ≤ (c.binding b).slot
  within : (c.binding b).slot ≤ (c.method frame).maxSlot

/-- The first slot above those of locals that are introduced one after the other. -/
def boundAfter (c : Context) : Nat → List Nat → Nat
  | bound, [] => bound
  | _, b :: bs => boundAfter c ((c.binding b).slot + 1) bs

/-- New locals, each in a slot above the one before. -/
def IntroducesAll (c : Context) (frame : Nat) : Nat → List Nat → Prop
  | _, [] => True
  | bound, b :: bs => c.Introduces frame bound b ∧ IntroducesAll c frame ((c.binding b).slot + 1) bs

/-- The locals in scope own distinct slots below the bound. -/
structure ScopeOk (c : Context) (frame bound : Nat) (scope : List Nat) : Prop where
  own : ∀ b ∈ scope, (c.binding b).method = some frame
  pos : ∀ b ∈ scope, 0 < (c.binding b).slot
  below : ∀ b ∈ scope, (c.binding b).slot < bound
  within : ∀ b ∈ scope, (c.binding b).slot ≤ (c.method frame).maxSlot
  distinct : ∀ b ∈ scope, ∀ b' ∈ scope, (c.binding b).slot = (c.binding b').slot → b = b'

variable {c : Context} {frame bound : Nat} {scope : List Nat}

theorem Introduces.not_mem {b : Nat} (h : c.Introduces frame bound b) (hs : c.ScopeOk frame bound scope) : b ∉ scope :=
  fun hb => Nat.lt_irrefl _ (Nat.lt_of_lt_of_le (hs.below b hb) h.above)

theorem Introduces.scopeOk {b : Nat} (h : c.Introduces frame bound b) (hs : c.ScopeOk frame bound scope) :
    c.ScopeOk frame ((c.binding b).slot + 1) (b :: scope) := by
  have hlt : ∀ b' ∈ scope, (c.binding b').slot < (c.binding b).slot := fun b' hb' =>
    Nat.lt_of_lt_of_le (hs.below b' hb') h.above
  refine ⟨?_, ?_, ?_, ?_, ?_⟩
  · exact List.forall_mem_cons.2 ⟨h.method, hs.own⟩
  · exact List.forall_mem_cons.2 ⟨h.pos, hs.pos⟩
  · exact List.forall_mem_cons.2 ⟨Nat.lt_succ_self _, fun b' hb' => Nat.lt_succ_of_lt (hlt b' hb')⟩
  · exact List.forall_mem_cons.2 ⟨h.within, hs.within⟩
  · intro b₁ h₁ b₂ h₂ he
    rcases List.mem_cons.1 h₁ with rfl | m₁ <;> rcases List.mem_cons.1 h₂ with rfl | m₂
    · rfl
    · exact absurd he (Nat.ne_of_gt (hlt _ m₂))
    · exact absurd he (Nat.ne_of_lt (hlt _ m₁))
    · exact hs.distinct _ m₁ _ m₂ he

theorem IntroducesAll.scopeOk : ∀ {bs : List Nat} {bound : Nat} {scope : List Nat}, c.IntroducesAll frame bound bs →
    c.ScopeOk frame bound scope → c.ScopeOk frame (c.boundAfter bound bs) (bs.reverse ++ scope)
  | [], _, _, _, hs => hs
  | b :: bs, _, _, h, hs => by
    rw [List.reverse_cons, List.append_assoc]
    exact h.2.scopeOk (h.1.scopeOk hs)

theorem IntroducesAll.le_boundAfter : ∀ {bs : List Nat} {bound : Nat}, c.IntroducesAll frame bound bs →
    bound ≤ c.boundAfter bound bs
  | [], _, _ => Nat.le_refl _
  | _ :: _, _, h => Nat.le_trans h.1.above (Nat.le_trans (Nat.le_succ _) h.2.le_boundAfter)

theorem IntroducesAll.above : ∀ {bs : List Nat} {bound : Nat}, c.IntroducesAll frame bound bs →
    ∀ b ∈ bs, bound ≤ (c.binding b).slot
  | _ :: _, _, h, b, hb => by
    rcases List.mem_cons.1 hb with rfl | hb
    · exact h.1.above
    · exact Nat.le_trans h.1.above (Nat.le_trans (Nat.le_succ _) (h.2.above b hb))

theorem IntroducesAll.nodup : ∀ {bs : List Nat} {bound : Nat}, c.IntroducesAll frame bound bs → bs.Nodup
  | [], _, _ => List.nodup_nil
  | b :: bs, _, h => by
    refine List.nodup_cons.2 ⟨fun hb => ?_, h.2.nodup⟩
    exact Nat.lt_irrefl _ (h.2.above b hb)

end Context

namespace Expr

mutual

/-- The scopes in an expression of a method are in order.  `bound` is the first slot above those in scope;
`loop` gives the locals that a `recur` at the end of the expression rebinds, if there may be one. -/
def Scoped (c : Context) (frame bound : Nat) (scope : List Nat) (loop : Option (List Nat)) : Expr → Prop
  | .nil | .bool _ | .long _ | .double _ | .const _ | .type _ | .var _ | .theVar _ | .staticField _ _
  | .deftype _ _ => True
  | .local r => c.Sees frame scope r ∧ r.prim ≠ some .bool
  | .vector items | .set items => ScopedAll c frame bound scope items
  | .map pairs => ScopedPairs c frame bound scope pairs
  | .define _ init _ => ScopedOption c frame bound scope init
  | .assign _ value | .throw value | .instanceOf _ value => Scoped c frame bound scope none value
  | .cond test yes no _ => Scoped c frame bound scope none test ∧ Scoped c frame bound scope loop yes ∧
    Scoped c frame bound scope loop no
  | .seq body => ScopedSeq c frame bound scope loop body
  | .bind isLoop bindings body => c.IntroducesAll frame bound (bindings.map (·.1)) ∧
    ScopedBindings c frame bound scope bindings ∧
    Scoped c frame (c.boundAfter bound (bindings.map (·.1))) ((bindings.map (·.1)).reverse ++ scope)
      (if isLoop then some (bindings.map (·.1)) else loop) body
  | .bindFns bindings body => c.IntroducesAll frame bound (bindings.map (·.1)) ∧
    ScopedInits c frame (c.boundAfter bound (bindings.map (·.1))) ((bindings.map (·.1)).reverse ++ scope) bindings ∧
    Scoped c frame (c.boundAfter bound (bindings.map (·.1))) ((bindings.map (·.1)).reverse ++ scope) loop body
  | .recur targets args _ => loop = some targets ∧ args.length = targets.length ∧ ScopedAll c frame bound scope args
  | .fn _ captures _ | .reify _ _ captures _ => ∀ r ∈ captures, c.Sees frame scope r
  | .invoke f args _ _ => Scoped c frame bound scope none f ∧ ScopedAll c frame bound scope args
  | .keywordInvoke _ target _ => Scoped c frame bound scope none target
  | .protocolInvoke _ args _ | .staticCall _ _ _ args _ | .construct _ _ _ args _ => ScopedAll c frame bound scope args
  | .methodCall target _ _ args _ => Scoped c frame bound scope none target ∧ ScopedAll c frame bound scope args
  | .fieldGet target _ field _ => Scoped c frame bound scope none target ∧ field.bind (·.prim) ≠ some .bool
  | .attempt body handlers cleanup resultSlot thrownSlot =>
    (bound ≤ resultSlot ∧ resultSlot < thrownSlot ∧ 0 < resultSlot ∧ thrownSlot ≤ (c.method frame).maxSlot) ∧
    Scoped c frame (thrownSlot + 1) scope none body ∧ ScopedHandlers c frame (thrownSlot + 1) scope handlers ∧
    ScopedOption c frame (thrownSlot + 1) scope cleanup
  | .case value temp _ buckets otherwise _ => Scoped c frame bound scope none value ∧ c.Introduces frame bound temp ∧
    buckets.Pairwise (fun a b => a.1.toInt ≤ b.1.toInt) ∧
    ScopedBuckets c frame ((c.binding temp).slot + 1) (temp :: scope) loop buckets ∧
    Scoped c frame ((c.binding temp).slot + 1) (temp :: scope) loop otherwise

def ScopedOption (c : Context) (frame bound : Nat) (scope : List Nat) : Option Expr → Prop
  | some e => Scoped c frame bound scope none e
  | none => True

def ScopedAll (c : Context) (frame bound : Nat) (scope : List Nat) : List Expr → Prop
  | [] => True
  | e :: es => Scoped c frame bound scope none e ∧ ScopedAll c frame bound scope es

def ScopedPairs (c : Context) (frame bound : Nat) (scope : List Nat) : List (Expr × Expr) → Prop
  | [] => True
  | (k, v) :: rest => Scoped c frame bound scope none k ∧ Scoped c frame bound scope none v ∧
    ScopedPairs c frame bound scope rest

def ScopedSeq (c : Context) (frame bound : Nat) (scope : List Nat) (loop : Option (List Nat)) : List Expr → Prop
  | [] => True
  | [e] => Scoped c frame bound scope loop e
  | e :: es => Scoped c frame bound scope none e ∧ ScopedSeq c frame bound scope loop es

/-- Each initial value sees the locals before it. -/
def ScopedBindings (c : Context) (frame bound : Nat) (scope : List Nat) : List (Nat × Expr) → Prop
  | [] => True
  | (b, init) :: rest => Scoped c frame bound scope none init ∧
    ScopedBindings c frame ((c.binding b).slot + 1) (b :: scope) rest

/-- Each initial value sees all the locals. -/
def ScopedInits (c : Context) (frame bound : Nat) (scope : List Nat) : List (Nat × Expr) → Prop
  | [] => True
  | (_, init) :: rest => Scoped c frame bound scope none init ∧ ScopedInits c frame bound scope rest

def ScopedHandlers (c : Context) (frame bound : Nat) (scope : List Nat) : List (String × Nat × Expr) → Prop
  | [] => True
  | (_, b, body) :: rest => c.Introduces frame bound b ∧
    Scoped c frame ((c.binding b).slot + 1) (b :: scope) none body ∧ ScopedHandlers c frame bound scope rest

def ScopedBuckets (c : Context) (frame bound : Nat) (scope : List Nat) (loop : Option (List Nat)) :
    List (Int32 × List (Form × Expr)) → Prop
  | [] => True
  | (_, entries) :: rest => entries ≠ [] ∧ ScopedEntries c frame bound scope loop entries ∧
    ScopedBuckets c frame bound scope loop rest

def ScopedEntries (c : Context) (frame bound : Nat) (scope : List Nat) (loop : Option (List Nat)) :
    List (Form × Expr) → Prop
  | [] => True
  | (_, value) :: rest => Scoped c frame bound scope loop value ∧ ScopedEntries c frame bound scope loop rest

end

mutual

/-- Whether there is a `try` in the expression. -/
def hasTry : Expr → Bool
  | .attempt .. => true
  | .vector items | .set items => anyTry items
  | .map pairs => anyTryPairs pairs
  | .define _ init _ => anyTryOption init
  | .assign _ value | .throw value | .instanceOf _ value => hasTry value
  | .cond test yes no _ => hasTry test || hasTry yes || hasTry no
  | .seq body => anyTry body
  | .bind _ bindings body | .bindFns bindings body => anyTryBindings bindings || hasTry body
  | .recur _ args _ | .protocolInvoke _ args _ | .staticCall _ _ _ args _ | .construct _ _ _ args _ => anyTry args
  | .invoke f args _ _ | .methodCall f _ _ args _ => hasTry f || anyTry args
  | .keywordInvoke _ target _ | .fieldGet target _ _ _ => hasTry target
  | .case value _ _ buckets otherwise _ => hasTry value || anyTryBuckets buckets || hasTry otherwise
  | _ => false

def anyTryOption : Option Expr → Bool
  | some e => hasTry e
  | none => false

def anyTry : List Expr → Bool
  | [] => false
  | e :: es => hasTry e || anyTry es

def anyTryPairs : List (Expr × Expr) → Bool
  | [] => false
  | (k, v) :: rest => hasTry k || hasTry v || anyTryPairs rest

def anyTryBindings : List (Nat × Expr) → Bool
  | [] => false
  | (_, init) :: rest => hasTry init || anyTryBindings rest

def anyTryBuckets : List (Int32 × List (Form × Expr)) → Bool
  | [] => false
  | (_, entries) :: rest => anyTryEntries entries || anyTryBuckets rest

def anyTryEntries : List (Form × Expr) → Bool
  | [] => false
  | (_, value) :: rest => hasTry value || anyTryEntries rest

end

theorem anyTry_eq (es : List Expr) : anyTry es = es.any hasTry := by
  induction es with
  | nil => rfl
  | cons e es ih => rw [anyTry, ih, List.any_cons]

theorem anyTryPairs_eq (ps : List (Expr × Expr)) : anyTryPairs ps = ps.any fun p => p.1.hasTry || p.2.hasTry := by
  induction ps with
  | nil => rfl
  | cons p ps ih => rw [anyTryPairs, ih, List.any_cons]

theorem anyTryBindings_eq (bs : List (Nat × Expr)) : anyTryBindings bs = bs.any fun b => b.2.hasTry := by
  induction bs with
  | nil => rfl
  | cons b bs ih => rw [anyTryBindings, ih, List.any_cons]

theorem anyTryEntries_eq (es : List (Form × Expr)) : anyTryEntries es = es.any fun e => e.2.hasTry := by
  induction es with
  | nil => rfl
  | cons e es ih => rw [anyTryEntries, ih, List.any_cons]

theorem anyTryBuckets_eq (bs : List (Int32 × List (Form × Expr))) :
    anyTryBuckets bs = bs.any fun b => b.2.any fun e => e.2.hasTry := by
  induction bs with
  | nil => rfl
  | cons b bs ih => rw [anyTryBuckets, ih, anyTryEntries_eq, List.any_cons]

end Expr

end LispMachine
