import LispMachine.Proofs.Emit.Enclosed
/-!
# What stands at the end of an expression

The value of an expression that stands at the end of another is the value of the whole (`Expr.Tail`), so both
have one destination, and the code of the first is a piece of the code of the second.  The handlers around it are
for other pieces (`sits_tail`).
-/
namespace LispMachine

/-- The expression stands at the end of the other one. -/
inductive Expr.Tail (e : Expr) : Expr → Prop
  | self : Tail e e
  | yes {test yes no : Expr} {line : Nat} : Tail e yes → Tail e (.cond test yes no line)
  | no {test yes no : Expr} {line : Nat} : Tail e no → Tail e (.cond test yes no line)
  | last {es : List Expr} {e' : Expr} : Tail e e' → Tail e (.seq (es ++ [e']))
  | bind {isLoop : Bool} {bindings : List (Nat × Expr)} {body : Expr} : Tail e body → Tail e (.bind isLoop bindings body)
  | bindFns {bindings : List (Nat × Expr)} {body : Expr} : Tail e body → Tail e (.bindFns bindings body)
  | entry {value otherwise : Expr} {temp : Nat} {plan : CasePlan} {buckets : List (Int32 × List (Form × Expr))} {line : Nat}
      {bucket : Int32 × List (Form × Expr)} {arm : Form × Expr} : bucket ∈ buckets → arm ∈ bucket.2 → Tail e arm.2 →
      Tail e (.case value temp plan buckets otherwise line)
  | otherwise {value otherwise : Expr} {temp : Nat} {plan : CasePlan} {buckets : List (Int32 × List (Form × Expr))} {line : Nat} :
      Tail e otherwise → Tail e (.case value temp plan buckets otherwise line)

namespace Emit

open LispMachine.Expr (Fitted FittedOption FittedAll FittedPairs FittedSeq FittedBindings FittedHandlers FittedBuckets FittedEntries Tail)

/-- The range of the handler does not meet the piece. -/
def Apart (i : Image) (p p' : Nat) (h : Handler) : Prop :=
  ∃ s t, i.method.labelPc? h.start = some s ∧ i.method.labelPc? h.stop = some t ∧ (t ≤ p ∨ p' ≤ s)

/-- The code of the expression is a piece of the code between two places, and the other handlers there are for
other pieces. -/
def Sits (good : CompiledUnit → Prop) (i : Image) (entry : Nat → Nat) (env : EmitEnv) (dest : Dest) (room : Room) (top : Bool)
    (e : Expr) (pc pc' : Nat) (hs : List Handler) : Prop :=
  ∃ head loop k p p' before own after, Laid { env with loopHead := head } dest e i entry k p p' own ∧
    Fitted good env.context room loop top e ∧ pc ≤ p ∧ p' ≤ pc' ∧ hs = before ++ own ++ after ∧ ∀ h ∈ before ++ after, Apart i p p' h

/-- The code of the expression is a piece of the region. -/
def Region.Contains (good : CompiledUnit → Prop) (i : Image) (entry : Nat → Nat) (env : EmitEnv) (dest : Dest) (room : Room) (top : Bool)
    (e : Expr) (A : Region) : Prop :=
  ∀ ⦃k pc pc' : Nat⦄ ⦃hs : List Handler⦄, A i entry k pc pc' hs → Sits good i entry env dest room top e pc pc' hs

section

variable {good : CompiledUnit → Prop} {i : Image} {entry : Nat → Nat} {env : EmitEnv} {dest : Dest} {room : Room} {top : Bool} {e : Expr}
variable {A B : Region} {pc pc' p p' q n : Nat} {h : Handler} {hs : List Handler} {loop : Option (List Nat)}

theorem Encloses.apart_after (he : Encloses i pc pc' h) (hp : pc' ≤ p) : Apart i p p' h := by
  obtain ⟨s, t, hs, ht, _, hle⟩ := he
  exact ⟨s, t, hs, ht, .inl (Nat.le_trans hle hp)⟩

theorem Encloses.apart_before (he : Encloses i pc pc' h) (hp : p' ≤ pc) : Apart i p p' h := by
  obtain ⟨s, t, hs, ht, hle, _⟩ := he
  exact ⟨s, t, hs, ht, .inr (Nat.le_trans hp hle)⟩

open Region

theorem contains_seq_right (hA : A.Framed top) (hB : B.Contains good i entry env dest room top e) :
    (seq n A B).Contains good i entry env dest room top e := by
  rintro k pc pc' hs ⟨q, hs₁, hs₂, rfl, ha, hb⟩
  obtain ⟨head, loop, k', p, p', before, own, after, hlaid, hf, hp, hp', rfl, hapart⟩ := hB hb
  refine ⟨head, loop, k', p, p', hs₁ ++ before, own, after, hlaid, hf, Nat.le_trans (hA.le ha) hp, hp', by simp only [List.append_assoc], ?_⟩
  intro h hh
  rw [List.append_assoc] at hh
  rcases List.mem_append.1 hh with hh | hh
  · exact (hA.encloses ha hh).apart_after hp
  · exact hapart h hh

theorem contains_seq_left (hA : A.Contains good i entry env dest room top e) (hB : B.Framed top) :
    (seq n A B).Contains good i entry env dest room top e := by
  rintro k pc pc' hs ⟨q, hs₁, hs₂, rfl, ha, hb⟩
  obtain ⟨head, loop, k', p, p', before, own, after, hlaid, hf, hp, hp', rfl, hapart⟩ := hA ha
  refine ⟨head, loop, k', p, p', before, own, after ++ hs₂, hlaid, hf, hp, Nat.le_trans hp' (hB.le hb), by simp only [List.append_assoc], ?_⟩
  intro h hh
  rw [← List.append_assoc] at hh
  rcases List.mem_append.1 hh with hh | hh
  · exact hapart h hh
  · exact (hB.encloses hb hh).apart_before hp'

theorem contains_fresh {A : Label → Region} (hA : ∀ l, (A l).Contains good i entry env dest room top e) :
    (fresh A).Contains good i entry env dest room top e := by
  rintro k pc pc' hs ⟨l, h⟩
  exact hA l h

theorem contains_laidSeq {e' : Expr} : ∀ {es : List Expr}, FittedSeq good env.context room loop top (es ++ [e']) →
    (Fitted good env.context room loop top e' → (Laid env dest e').Contains good i entry env dest room top e) →
    (LaidSeq env dest (es ++ [e'])).Contains good i entry env dest room top e
  | [], hf, he => by
    rw [List.nil_append, LaidSeq]
    exact he hf
  | [e₁], hf, he => by
    rw [List.singleton_append, LaidSeq]
    · exact contains_seq_right ((framed_laid .statement e₁ hf.1).any top) (by rw [LaidSeq]; exact he hf.2)
    · exact List.cons_ne_nil _ _
  | e₁ :: e₂ :: es, hf, he => by
    rw [List.cons_append, LaidSeq]
    · exact contains_seq_right ((framed_laid .statement e₁ hf.1).any top) (contains_laidSeq hf.2 he)
    · exact List.cons_ne_nil _ _

theorem contains_laidEntries {test : CaseTest} {slot : Nat} {missed stop : Label} {arm : Form × Expr} : ∀ {arms : List (Form × Expr)},
    arm ∈ arms → FittedEntries good env.context room loop top arms →
    (Fitted good env.context room loop top arm.2 → (Laid env dest arm.2).Contains good i entry env dest room top e) →
    (LaidEntries env dest test slot missed stop arms).Contains good i entry env dest room top e
  | (constant, value) :: arms, hmem, hf, he => by
    have hrest := framed_laidEntries dest test slot missed stop arms hf.2
    rw [LaidEntries]
    rintro k pc pc' hs ⟨next, _, h⟩
    have hnext : (if arms.isEmpty then code [] fun _ => [] else here next : Region).Framed top := by
      split
      · exact framed_code _ _ top
      · exact framed_here next top
    refine contains_seq_right (framed_code _ _ top) ?_ h
    rcases List.mem_cons.1 hmem with rfl | hmem
    · exact contains_seq_left (he hf.1) (framed_seq (framed_exit _ _ _ top) (framed_seq hnext hrest))
    · refine contains_seq_right (framed_laid dest value hf.1) (contains_seq_right (framed_exit _ _ _ top) (contains_seq_right hnext ?_))
      exact contains_laidEntries hmem hf.2 he

theorem contains_laidBuckets {test : CaseTest} {slot : Nat} {missed stop : Label} {bucket : Int32 × List (Form × Expr)} {arm : Form × Expr}
    (harm : arm ∈ bucket.2) : ∀ {labels : List Label} {buckets : List (Int32 × List (Form × Expr))},
    bucket ∈ buckets → FittedBuckets good env.context room loop top buckets →
    (Fitted good env.context room loop top arm.2 → (Laid env dest arm.2).Contains good i entry env dest room top e) →
    (LaidBuckets env dest test slot missed stop labels buckets).Contains good i entry env dest room top e
  | labels, (key, arms) :: buckets, hmem, hf, he => by
    rw [LaidBuckets]
    refine contains_seq_right (framed_here _ top) ?_
    rcases List.mem_cons.1 hmem with rfl | hmem
    · exact contains_seq_left (contains_laidEntries harm hf.1 he) (framed_laidBuckets dest test slot missed stop _ buckets hf.2)
    · exact contains_seq_right (framed_laidEntries dest test slot missed stop arms hf.1) (contains_laidBuckets harm hmem hf.2 he)

/-- **The code of what stands at the end is a piece of the code of the whole.** -/
theorem contains_tail {e₀ : Expr} (ht : Tail e e₀) : ∀ {env : EmitEnv} {loop : Option (List Nat)}, Fitted good env.context room loop top e₀ →
    (Laid env dest e₀).Contains good i entry env dest room top e := by
  induction ht with
  | self =>
    intro env loop hf k pc pc' hs h
    exact ⟨env.loopHead, loop, k, pc, pc', [], hs, [], h, hf, Nat.le_refl _, Nat.le_refl _, by simp, fun h hh => by cases hh⟩
  | yes _ ih =>
    intro env loop hf
    rw [Laid]
    refine contains_fresh fun otherwise => contains_fresh fun stop => contains_seq_right ((framed_laid _ _ hf.1).any top) ?_
    refine contains_seq_right (framed_code _ _ top) (contains_seq_left (ih hf.2.1) ?_)
    refine framed_seq (framed_exit _ _ _ top) (framed_seq (framed_here _ top) ?_)
    exact framed_seq (framed_laid dest _ hf.2.2) (framed_here _ top)
  | no _ ih =>
    intro env loop hf
    rw [Laid]
    refine contains_fresh fun otherwise => contains_fresh fun stop => contains_seq_right ((framed_laid _ _ hf.1).any top) ?_
    refine contains_seq_right (framed_code _ _ top) (contains_seq_right (framed_laid dest _ hf.2.1) ?_)
    refine contains_seq_right (framed_exit _ _ _ top) (contains_seq_right (framed_here _ top) ?_)
    exact contains_seq_left (ih hf.2.2) (framed_here _ top)
  | last _ ih =>
    intro env loop hf
    rw [Laid]
    exact contains_laidSeq hf ih
  | bind _ ih =>
    rename_i isLoop bindings body _
    intro env loop hf
    rw [Laid]
    refine contains_seq_right ((framed_laidBindings _ bindings hf.1).any top) ?_
    split
    · refine contains_fresh fun head => contains_seq_right (framed_here head top) ?_
      exact @ih { env with loopHead := head } _ hf.2
    · exact ih hf.2
  | bindFns _ ih =>
    intro env loop hf
    rw [Laid]
    refine contains_seq_right (framed_code _ _ top) (contains_seq_right ((framed_laidBindings _ _ hf.1).any top) ?_)
    exact contains_seq_right (framed_code _ _ top) (ih hf.2)
  | entry hb ha _ ih =>
    intro env loop hf
    obtain ⟨hvalue, _, hbuckets, helse⟩ := hf
    rw [Laid]
    refine contains_fresh fun missed => contains_fresh fun stop => contains_seq_right ((framed_laid .boxed _ hvalue).any top) ?_
    refine contains_seq_right (framed_code _ _ top) ?_
    rintro k pc pc' hs ⟨labels, _, h⟩
    refine contains_seq_right (framed_code _ _ top) (contains_seq_left (contains_laidBuckets ha hb hbuckets ih) ?_) h
    exact framed_seq (framed_here missed top) (framed_seq (framed_laid dest _ helse) (framed_here stop top))
  | otherwise _ ih =>
    intro env loop hf
    obtain ⟨hvalue, _, hbuckets, helse⟩ := hf
    rw [Laid]
    refine contains_fresh fun missed => contains_fresh fun stop => contains_seq_right ((framed_laid .boxed _ hvalue).any top) ?_
    refine contains_seq_right (framed_code _ _ top) ?_
    rintro k pc pc' hs ⟨labels, _, h⟩
    refine contains_seq_right (framed_code _ _ top) (contains_seq_right (framed_laidBuckets dest _ _ missed stop labels _ hbuckets) ?_) h
    exact contains_seq_right (framed_here missed top) (contains_seq_left (ih helse) (framed_here stop top))

end

end Emit

end LispMachine
