import LispMachine.Proofs.Analyze.Choices
import LispMachine.Proofs.Class.Hierarchy
import LispMachine.Proofs.Expr.Switch
import LispMachine.Proofs.Run.Returns
import LispMachine.Proofs.Value.Equality
/-!
# Choosing by key is searching for an equal constant

A `case` compares its value with the constants of one bucket only, the one to which the key of the value leads.  A value
that equals a constant has its key (`caseKey_of_equiv`), so nothing is missed in the other buckets, and the choice is a
linear search through all constants (`meaning_case`), in each of the ways in which a table can be laid out.  For a form
that the analysis accepts this means: the clause whose constant equals the value is evaluated, and the default if there
is none (`case_searches`).

The table of whole numbers first asks whether the value is a number, by the class that has this name when the unit is
loaded; what is said here needs that this class is the one of numbers (`Counts`).  The value may hold no double that is
not a number, since equality does not reach it (`Value.Regular`).
-/
namespace LispMachine

open LispMachine.Emit LispMachine.Expr LispMachine.Analyze

/-- Longs and doubles. -/
def Value.isNumber : Value → Bool
  | .long _ | .double _ => true
  | _ => false

namespace Activation

variable {S : Activation} {k n : Nat} {ρ : Locals} {w w' : World} {v x : Value} {f g : Form} {test : CaseTest} {plan : CasePlan}

/-! ## Constants as data -/

/-- The entry of a need is the data of a regular form that equals the given one. -/
def Shows (S : Activation) (k : Nat) (f : Form) : Prop := ∃ g : Form, g.Regular ∧ (g == f) = true ∧ Value.Mirrors g (S.value k)

/-- What the needs ask for as data is in the tables. -/
def Shown (S : Activation) (k : Nat) (ns : List Need) : Prop := ∀ j f, ns[j]? = some (formNeed f) → S.Shows (k + j) f

theorem Shown.left {ns ms : List Need} (h : S.Shown k (ns ++ ms)) : S.Shown k ns := fun j f hj =>
  h j f ((List.getElem?_append_left (List.getElem?_eq_some_iff.1 hj).1).trans hj)

theorem Shown.right {ns ms : List Need} (h : S.Shown k (ns ++ ms)) : S.Shown (k + ns.length) ms := fun j f hj => by
  rw [Nat.add_assoc]
  exact h _ f (by rw [List.getElem?_append_right (Nat.le_add_right _ _), Nat.add_sub_cancel_left, hj])

theorem Shown.head {ns : List Need} (h : S.Shown k (formNeed f :: ns)) : S.Shows k f := h 0 f rfl

theorem Shown.tail {need : Need} {ns : List Need} (h : S.Shown k (need :: ns)) : S.Shown (k + 1) ns :=
  have h : S.Shown k ([need] ++ ns) := h
  h.right

theorem Shows.equiv_eq (h : S.Shows k f) (hx : Value.Mirrors f x) (v : Value) : Value.equiv v (S.value k) = Value.equiv v x := by
  obtain ⟨g, hg, heq, hm⟩ := h
  refine Bool.eq_iff_iff.2 ⟨fun h => Value.equiv_trans h ?_, fun h => Value.equiv_trans h ?_⟩
  · exact (hm.equiv_eq hx).trans heq
  · exact (hx.equiv_eq hm).trans (hg.beq_symm heq)

theorem Shows.hash_eq (h : S.Shows k f) : (S.value k).hash = f.hash := by
  obtain ⟨g, hg, heq, hm⟩ := h
  rw [hm.hash_eq, hg.hash_eq heq]

theorem Shows.equiv_value (h : S.Shows k f) (hx : Value.Mirrors f x) : Value.equiv (S.value k) x = true := by
  obtain ⟨g, -, heq, hm⟩ := h
  exact (hm.equiv_eq hx).trans heq

theorem Shows.value_long {i : Int64} (h : S.Shows k (.long i)) : S.value k = .long i := Value.equiv_long.1 (h.equiv_value (.long i))

theorem Shows.value_keyword {s : Keyword} (h : S.Shows k (.keyword s)) : S.value k = .keyword s :=
  Value.equiv_keyword.1 (h.equiv_value (.keyword s))

theorem Shows.value_str {t : String} (h : S.Shows k (.str t)) : S.value k = .str t := Value.equiv_str.1 (h.equiv_value (.str t))

/-! ## Keys -/

theorem maskedKey_eq (plan : CasePlan) (key : Int32) : Machine.maskedKey plan key = maskKey plan.shift plan.mask key := by
  unfold Machine.maskedKey maskKey
  cases h : plan.mask == 0 with
  | true => simp [bne, h]
  | false => simp [bne, h]; rfl

/-- The instances of the class for a need are the numbers. -/
def Counts (S : Activation) (k : Nat) (w : World) (v : Value) : Prop := w.isInstance v (S.type k).1 = v.isNumber

theorem caseKey_int (ht : plan.test = .int) : S.caseKey k plan v w = (if w.isInstance v (S.type k).1 = true then
    Run.ofExcept (Slot.unbox v .int) >>= fun s => pure (some (maskKey plan.shift plan.mask (s.int?.getD 0))) else pure none : Run _) w := by
  simp only [← maskedKey_eq]
  unfold caseKey
  rw [ht]
  rfl

theorem caseKey_hash (ht : plan.test ≠ .int) : S.caseKey k plan v w = (.value (some (maskKey plan.shift plan.mask v.hash)), w) := by
  simp only [← maskedKey_eq]
  unfold caseKey
  cases h : plan.test with
  | int => exact absurd h ht
  | hashIdentity | hashEquiv => rfl

theorem rawKey_hash (ht : test ≠ .int) (f : Form) : rawKey test f = f.hash := by
  cases test with
  | int => exact absurd rfl ht
  | hashIdentity | hashEquiv => cases f <;> rfl

/-- A value that equals a constant has its key. -/
theorem caseKey_of_equiv (hv : v.Regular) (hnum : plan.test = .int → S.Counts k w v) (hs : Suits plan.test f = true) {j : Nat}
    (hf : S.Shows j f) (heq : Value.equiv v (S.value j) = true) :
    S.caseKey k plan v w = (.value (some (maskKey plan.shift plan.mask (rawKey plan.test f))), w) := by
  by_cases ht : plan.test = .int
  · rw [ht] at hs
    obtain ⟨i, rfl⟩ : ∃ i, f = .long i := by cases f <;> first | exact ⟨_, rfl⟩ | cases hs
    rw [hf.value_long] at heq
    obtain rfl := Value.equiv_long.1 heq
    have hinst : w.isInstance (.long i) (S.type k).1 = true := hnum ht
    rw [caseKey_int ht, hinst, ht]
    rfl
  · rw [caseKey_hash ht, rawKey_hash ht, (hv.hash_eq heq).trans hf.hash_eq]

/-- Every value has a key or is of no class that has keys. -/
theorem caseKey_total (hnum : plan.test = .int → S.Counts k w v) : ∃ key, S.caseKey k plan v w = (.value key, w) := by
  by_cases ht : plan.test = .int
  · have hnum : w.isInstance v (S.type k).1 = v.isNumber := hnum ht
    rw [caseKey_int ht, hnum]
    cases v with
    | long | double => exact ⟨_, rfl⟩
    | _ => exact ⟨none, rfl⟩
  · exact ⟨_, caseKey_hash ht⟩

theorem isCase_eq (hs : Suits test f = true) (hf : S.Shows k f) (v : Value) : isCase test v (S.value k) = Value.equiv v (S.value k) := by
  cases test with
  | hashIdentity =>
    obtain ⟨s, rfl⟩ : ∃ s, f = .keyword s := by cases f <;> first | exact ⟨_, rfl⟩ | cases hs
    rw [hf.value_keyword]
    cases v <;> simp [isCase, Value.equiv]
  | int | hashEquiv => rfl

end Activation

/-! ## Search -/

/-- The value equals the form as data. -/
def Value.denotes (v : Value) (f : Form) : Bool := v.equiv ((ofForm f).run 0).1

/-- The first entry whose constant equals the value, with the number of the first need of its expression. -/
def Expr.search (v : Value) : Nat → List (Form × Expr) → Option (Nat × Expr)
  | _, [] => none
  | k, (f, e) :: rest => if v.denotes f then some (k + 1, e) else search v (k + 1 + (needs e).length) rest

namespace Activation

variable {S : Activation} {k n : Nat} {ρ : Locals} {w w' : World} {v : Value} {f : Form} {test : CaseTest} {plan : CasePlan}
  {entries rest : List (Form × Expr)} {buckets : List (Int32 × List (Form × Expr))}

theorem Shows.equiv_eq_denotes (h : S.Shows k f) (hf : f.Regular) (v : Value) : Value.equiv v (S.value k) = v.denotes f :=
  h.equiv_eq (Value.Reads.mirrors hf ⟨0, rfl⟩) v

theorem search_append : search v k (entries ++ rest) =
    (search v k entries).or (search v (k + (needsEntries entries).length) rest) := by
  induction entries generalizing k with
  | nil => rfl
  | cons e entries ih =>
    obtain ⟨f, e⟩ := e
    rw [List.cons_append, search, search]
    split
    · rfl
    · rw [ih, needsEntries, List.length_cons, List.length_append]
      congr 2
      omega

theorem search_eq_none : search v k entries = none ↔ ∀ e ∈ entries, v.denotes e.1 = false := by
  induction entries generalizing k with
  | nil => simp [search]
  | cons e entries ih =>
    obtain ⟨f, e⟩ := e
    rw [search, List.forall_mem_cons]
    split
    · rename_i h
      simp [h]
    · rename_i h
      rw [ih]
      simp [h]

theorem Shown.of_mem_entries (h : S.Shown k (needsEntries entries)) {e : Form × Expr} (he : e ∈ entries) : ∃ j, S.Shows j e.1 := by
  induction entries generalizing k with
  | nil => cases he
  | cons e' entries ih =>
    rw [needsEntries] at h
    rcases List.mem_cons.1 he with rfl | he
    · exact ⟨k, h.head⟩
    · exact ih h.tail.right he

theorem Shown.of_mem (h : S.Shown k (needsBuckets buckets)) {b : Int32 × List (Form × Expr)} (hb : b ∈ buckets) {e : Form × Expr}
    (he : e ∈ b.2) : ∃ j, S.Shows j e.1 := by
  induction buckets generalizing k with
  | nil => cases hb
  | cons b' buckets ih =>
    rw [needsBuckets] at h
    rcases List.mem_cons.1 hb with rfl | hb
    · exact h.left.of_mem_entries he
    · exact ih h.right hb

/-- What is found is an entry whose constant equals the value. -/
theorem exists_of_search {j : Nat} {a : Expr} (h : search v k entries = some (j, a)) : ∃ f, (f, a) ∈ entries ∧ v.denotes f = true := by
  induction entries generalizing k with
  | nil => cases h
  | cons e entries ih =>
    obtain ⟨f, e⟩ := e
    rw [search] at h
    split at h
    · rename_i hd
      obtain ⟨-, rfl⟩ := Prod.mk.inj (Option.some.inj h)
      exact ⟨f, List.mem_cons_self, hd⟩
    · exact (ih h).imp fun _ h => h.imp_left (List.mem_cons_of_mem _)

/-- Evaluates what was found. -/
def found (S : Activation) (n : Nat) (ρ : Locals) : Option (Nat × Expr) → Run (Option Flow)
  | some (j, a) => do return some (← meaning S n j ρ a)
  | none => return none

/-- The entries under one key are searched one after the other. -/
theorem meaningEntries_eq (hs : ∀ e ∈ entries, Suits test e.1 = true) (hr : ∀ e ∈ entries, e.1.Regular)
    (hf : S.Shown k (needsEntries entries)) : meaningEntries S n k ρ test v entries = S.found n ρ (search v k entries) := by
  induction entries generalizing k with
  | nil =>
    rw [meaningEntries]
    rfl
  | cons e entries ih =>
    obtain ⟨f, e⟩ := e
    obtain ⟨hs, hs'⟩ := List.forall_mem_cons.1 hs
    obtain ⟨hr, hr'⟩ := List.forall_mem_cons.1 hr
    rw [needsEntries] at hf
    have hshows := hf.head
    rw [meaningEntries, isCase_eq hs hshows, hshows.equiv_eq_denotes hr, search]
    split
    · rfl
    · exact ih hs' hr' hf.tail.right

/-- **The key leads to the entry that a search finds.** -/
theorem meaningBuckets_eq {key : Option Int32} (hs : ∀ b ∈ buckets, ∀ e ∈ b.2, Suits test e.1 = true)
    (hr : ∀ b ∈ buckets, ∀ e ∈ b.2, e.1.Regular) (hf : S.Shown k (needsBuckets buckets)) (hapart : buckets.Pairwise fun b b' => b.1 ≠ b'.1)
    (hkey : ∀ b ∈ buckets, ∀ e ∈ b.2, v.denotes e.1 = true → key = some b.1) :
    meaningBuckets S n k ρ test v key buckets = S.found n ρ (search v k (buckets.flatMap (·.2))) := by
  induction buckets generalizing k with
  | nil =>
    rw [meaningBuckets]
    rfl
  | cons b buckets ih =>
    obtain ⟨own, entries⟩ := b
    obtain ⟨hs, hs'⟩ := List.forall_mem_cons.1 hs
    obtain ⟨hr, hr'⟩ := List.forall_mem_cons.1 hr
    obtain ⟨hkey, hkey'⟩ := List.forall_mem_cons.1 hkey
    obtain ⟨hown, hapart⟩ := List.pairwise_cons.1 hapart
    rw [needsBuckets] at hf
    rw [meaningBuckets, List.flatMap_cons, search_append]
    split
    · rename_i heq
      have hnone : search v (k + (needsEntries entries).length) (buckets.flatMap (·.2)) = none := by
        refine search_eq_none.2 fun e he => ?_
        obtain ⟨b, hb, he⟩ := List.mem_flatMap.1 he
        refine Bool.eq_false_iff.2 fun hd => hown b hb ?_
        exact Option.some.inj (heq.symm.trans (hkey' b hb e he hd))
      rw [meaningEntries_eq hs hr hf.left, hnone, Option.or_none]
    · rename_i hne
      have hnone : search v k entries = none := search_eq_none.2 fun e he => Bool.eq_false_iff.2 fun hd => hne (hkey e he hd)
      rw [hnone, Option.none_or]
      exact ih hs' hr' hf.right hapart hkey'

theorem found_bind (o : Option (Nat × Expr)) (x : Run Flow) (w : World) :
    (S.found n ρ o >>= fun r => match r with
      | some r => pure r
      | none => x) w = (match o with
      | some (j, a) => meaning S n j ρ a
      | none => x) w := by
  cases o with
  | none => rfl
  | some e =>
    simp only [found, bind_assoc, pure_bind, bind_pure]

/-- **A choice by keys is a search for an equal constant.** -/
theorem meaning_case {dispatch otherwise : Expr} {temp line : Nat} {s : Slot} (hk : Keyed plan buckets)
    (hv : Run.held none (dispatch.meaning S n k ρ) w = (.value s, w')) (hreg : s.toValue.Regular)
    (hnum : plan.test = .int → S.Counts (k + dispatch.needs.length) w' s.toValue)
    (hr : ∀ b ∈ buckets, ∀ e ∈ b.2, e.1.Regular)
    (hf : S.Shown (k + dispatch.needs.length + (keyNeeds plan).length) (needsBuckets buckets)) :
    (Expr.case dispatch temp plan buckets otherwise line).meaning S n k ρ w =
      (match search s.toValue (k + dispatch.needs.length + (keyNeeds plan).length) (buckets.flatMap fun b : Int32 × List (Form × Expr) => b.2) with
      | some (j, a) => a.meaning S n j (ρ.set temp s)
      | none => otherwise.meaning S n (k + dispatch.needs.length + (keyNeeds plan).length + (needsBuckets buckets).length) (ρ.set temp s)) w' := by
  obtain ⟨key, hkey⟩ := caseKey_total hnum
  rw [meaning, Run.bind_value hv]
  dsimp only
  rw [Run.bind_value hkey, meaningBuckets_eq hk.suits hr hf (hk.ascending.imp Int32.ne_of_lt) fun b hb e he hd => ?_]
  · exact found_bind _ _ _
  · obtain ⟨j, hshows⟩ := hf.of_mem hb he
    have hequal := caseKey_of_equiv hreg hnum (hk.suits b hb e he) hshows ((hshows.equiv_eq_denotes (hr b hb e he) _).trans hd)
    rw [hk.keyed b hb e he, hkey] at hequal
    exact Outcome.value.inj (congrArg Prod.fst hequal)

end Activation

/-! ## Clauses -/

section

variable {rec : Analyzer} {demand : Demand} {clauses : List (Form × Form)} {constants : List CaseConstant} {plan : CasePlan}
  {buckets : List (Int32 × List (Form × Expr))} {v : Value} {f g : Form}

/-- Constants that equal one value equal each other. -/
theorem Value.Regular.beq_of_denotes (hv : v.Regular) (hf : f.Regular) (hg : g.Regular) (h : v.denotes f = true) (h' : v.denotes g = true) :
    (f == g) = true := by
  have hm : Mirrors f ((ofForm f).run 0).1 := Reads.mirrors hf ⟨0, rfl⟩
  rw [← show _ = (f == g) from hm.equiv_eq (Reads.mirrors hg ⟨0, rfl⟩)]
  exact equiv_trans (hv.equiv_symm h) h'

/-- **The search finds the value of the clause that has an equal constant.** -/
theorem Analyze.Tabulates.search_of_denotes (ht : Tabulates rec demand clauses plan buckets) (hc : caseConstants clauses = .ok constants)
    (hr : ∀ test value, TestOf clauses test value → test.Regular) (hv : v.Regular) {test value : Form} (hin : TestOf clauses test value)
    (hd : v.denotes test = true) (k : Nat) : ∃ j a, search v k (buckets.flatMap (·.2)) = some (j, a) ∧ Makes rec demand value a := by
  cases hs : search v k (buckets.flatMap (·.2)) with
  | none =>
    obtain ⟨b, hb, e, he, rfl, -⟩ := ht.complete test value hin
    have hmissed := Activation.search_eq_none.1 hs e (List.mem_flatMap.2 ⟨b, hb, he⟩)
    exact absurd hd (ne_true_of_eq_false hmissed)
  | some found =>
    obtain ⟨j, a⟩ := found
    obtain ⟨f, he, hf⟩ := Activation.exists_of_search hs
    obtain ⟨b, hb, he⟩ := List.mem_flatMap.1 he
    obtain ⟨value', hin', hmakes⟩ := ht.sound b hb (f, a) he
    have hregular := hr test value hin
    have hregular' := hr f value' hin'
    obtain rfl := clause_unique hc hin hin' (hv.beq_of_denotes hregular hregular' hd hf) (hv.beq_of_denotes hregular' hregular hf hd)
    exact ⟨j, a, rfl, hmakes⟩

/-- The search finds nothing if no constant equals the value. -/
theorem Analyze.Tabulates.search_of_missed (ht : Tabulates rec demand clauses plan buckets)
    (hd : ∀ test value, TestOf clauses test value → v.denotes test = false) (k : Nat) : search v k (buckets.flatMap (·.2)) = none := by
  refine Activation.search_eq_none.2 fun e he => ?_
  obtain ⟨b, hb, he⟩ := List.mem_flatMap.1 he
  obtain ⟨value, hin, -⟩ := ht.sound b hb e he
  exact hd e.1 value hin

theorem caseConstants_ne_nil (hc : caseConstants clauses = .ok constants) (hne : clauses ≠ []) : constants ≠ [] := by
  obtain ⟨p, rest, rfl⟩ := List.exists_cons_of_ne_nil hne
  obtain ⟨t, ht⟩ : ∃ t, t ∈ clauseTests p.1 := by
    unfold clauseTests
    split
    · exact ⟨_, List.mem_cons_self⟩
    · exact ⟨_, List.mem_singleton_self _⟩
  exact List.ne_nil_of_mem (((caseConstants_eq_ok hc).2 ⟨t.withInfo none, 0⟩).2 ⟨p, rfl, t, ht, rfl⟩)

/-- **A choice evaluates the clause whose constant equals the dispatch value, and the default if there is none.**  The dispatch
value is evaluated first and once; besides it the chosen expression sees just the locals of the choice. -/
theorem Analyze.case_searches {c c' : Context} (hd : demand ≠ .eval) {form head value : Form} {rest : List Form} {e : Expr}
    (h : Analyze.case rec demand form (head :: value :: rest) c = (.ok e, c')) (hne : (caseClauses rest).1 ≠ [])
    (hr : ∀ test clause, TestOf (caseClauses rest).1 test clause → test.Regular) :
    ∃ dispatch temp before otherwise, Makes rec demand.operand value dispatch ∧ e.needs = before ++ otherwise.needs ∧
      FallsTo rec demand value (caseClauses rest).1 (caseClauses rest).2 c.world temp otherwise ∧
      ∀ {S : Activation} {n k : Nat} {ρ : Locals} {w w' : World} {s : Slot},
      Run.held none (dispatch.meaning S n k ρ) w = (.value s, w') → s.toValue.Regular → S.Shown k e.needs →
      (∀ j, e.needs[j]? = some (.constant (.type numberClass)) → S.Counts (k + j) w' s.toValue) →
      (∀ test clause, TestOf (caseClauses rest).1 test clause → s.toValue.denotes test = true →
        ∃ j a, Makes rec demand clause a ∧ e.meaning S n k ρ w = a.meaning S n j (ρ.set temp s) w') ∧
      ((∀ test clause, TestOf (caseClauses rest).1 test clause → s.toValue.denotes test = false) →
        e.meaning S n k ρ w = otherwise.meaning S n (k + before.length) (ρ.set temp s) w') := by
  obtain ⟨constants, dispatch, temp, otherwise, hc, hdispatch, hfalls, ⟨rfl, -⟩ | ⟨-, plan, buckets, line, rfl, htable⟩⟩ := case_eq_ok hd h
  · exact absurd rfl (caseConstants_ne_nil hc hne)
  · refine ⟨dispatch, temp, dispatch.needs ++ (keyNeeds plan ++ needsBuckets buckets), otherwise, hdispatch, ?_, hfalls,
      fun {S n k ρ w w' s} hv hreg hshown hnum => ?_⟩
    · rw [needs, List.append_assoc, List.append_assoc]
    rw [needs] at hshown hnum
    have hregular : ∀ b ∈ buckets, ∀ e ∈ b.2, e.1.Regular := fun b hb e he =>
      have ⟨value, hin, _⟩ := htable.sound b hb e he
      hr e.1 value hin
    have hcounts : plan.test = .int → S.Counts (k + dispatch.needs.length) w' s.toValue := by
      intro ht
      refine hnum _ ?_
      rw [List.getElem?_append_right (Nat.le_refl _), Nat.sub_self, keyNeeds, ht]
      rfl
    have hcase : (Expr.case dispatch temp plan buckets otherwise line).meaning S n k ρ w = _ :=
      Activation.meaning_case htable.toKeyed hv hreg hcounts hregular hshown.right.right.left
    constructor
    · intro test clause hin heq
      obtain ⟨j, a, hfound, hmakes⟩ := htable.search_of_denotes hc hr hreg hin heq (k + dispatch.needs.length + (keyNeeds plan).length)
      rw [hfound] at hcase
      exact ⟨j, a, hmakes, hcase⟩
    · intro hmissed
      rw [htable.search_of_missed hmissed] at hcase
      rw [hcase, List.length_append, List.length_append, Nat.add_assoc, Nat.add_assoc]

end

end LispMachine
