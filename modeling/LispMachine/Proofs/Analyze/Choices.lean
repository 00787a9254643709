import LispMachine.Proofs.Analyze.Effects
import LispMachine.Proofs.Analyze.Fits
import LispMachine.Proofs.Analyze.Literals
import LispMachine.Proofs.Analyze.Marks
/-!
# Tables of constants

The analysis of a `case` puts the constants of its clauses under their keys.  Under a key stand exactly the constants that
have it (`grouped_groupByKey`), what a plan leaves of different keys stays different (`nodup_casePlan`), and so every constant
is in the table in one place, under its own key, with an expression of its clause's value (`Tabulates`): see `case_eq_ok`.
-/
namespace LispMachine.Analyze

open Analysis

/-! ## Groups -/

section

variable {α : Type} {key : α → Int32} {k k' : Int32} {a b : α} {groups : List (Int32 × List α)}

/-- The element stands under the key. -/
def Under (groups : List (Int32 × List α)) (k : Int32) (a : α) : Prop := ∃ as, (k, as) ∈ groups ∧ a ∈ as

/-- The keys ascend, and under each of them stands something. -/
structure Grouped (groups : List (Int32 × List α)) : Prop where
  ascending : groups.Pairwise fun g h => g.1 < h.1
  inhabited : ∀ g ∈ groups, g.2 ≠ []

theorem under_cons {g : Int32 × List α} : Under (g :: groups) k a ↔ (k = g.1 ∧ a ∈ g.2) ∨ Under groups k a := by
  unfold Under
  constructor
  · rintro ⟨as, hg, ha⟩
    rcases List.mem_cons.1 hg with rfl | hg
    · exact .inl ⟨rfl, ha⟩
    · exact .inr ⟨as, hg, ha⟩
  · rintro (⟨rfl, ha⟩ | ⟨as, hg, ha⟩)
    · exact ⟨g.2, List.mem_cons_self, ha⟩
    · exact ⟨as, List.mem_cons_of_mem _ hg, ha⟩

theorem under_insertKeyed : Under (insertKeyed k a groups) k' b ↔ (k' = k ∧ b = a) ∨ Under groups k' b := by
  induction groups with
  | nil => simp [insertKeyed, Under]
  | cons g rest ih =>
    obtain ⟨own, as⟩ := g
    rw [insertKeyed]
    split
    · simp [under_cons]
    · split
      · rename_i heq
        obtain rfl := eq_of_beq heq
        simp only [under_cons, List.mem_append, List.mem_singleton]
        tauto
      · simp only [under_cons, ih]
        tauto

theorem mem_keys_insertKeyed : k' ∈ (insertKeyed k a groups).map (·.1) ↔ k' = k ∨ k' ∈ groups.map (·.1) := by
  induction groups with
  | nil => simp [insertKeyed]
  | cons g rest ih =>
    obtain ⟨own, as⟩ := g
    rw [insertKeyed]
    split
    · simp
    · split
      · rename_i heq
        obtain rfl := eq_of_beq heq
        simp
      · simp only [List.map_cons, List.mem_cons, ih]
        tauto

theorem Grouped.insertKeyed (h : Grouped groups) : Grouped (insertKeyed k a groups) := by
  obtain ⟨hasc, hin⟩ := h
  induction groups with
  | nil => exact ⟨List.pairwise_singleton _ _, by simp [Analyze.insertKeyed]⟩
  | cons g rest ih =>
    obtain ⟨own, as⟩ := g
    obtain ⟨hhead, htail⟩ := List.pairwise_cons.1 hasc
    obtain ⟨has, hrest⟩ := List.forall_mem_cons.1 hin
    rw [Analyze.insertKeyed]
    split
    · rename_i hlt
      refine ⟨List.pairwise_cons.2 ⟨?_, hasc⟩, List.forall_mem_cons.2 ⟨List.cons_ne_nil _ _, hin⟩⟩
      intro g hg
      rcases List.mem_cons.1 hg with rfl | hg
      · exact hlt
      · exact Int32.lt_trans hlt (hhead g hg)
    · rename_i hle
      split
      · exact ⟨List.pairwise_cons.2 ⟨hhead, htail⟩, List.forall_mem_cons.2 ⟨by simp, hrest⟩⟩
      · rename_i hne
        obtain ⟨hasc', hin'⟩ := ih htail hrest
        refine ⟨List.pairwise_cons.2 ⟨fun g hg => ?_, hasc'⟩, List.forall_mem_cons.2 ⟨has, hin'⟩⟩
        rcases mem_keys_insertKeyed.1 (List.mem_map_of_mem (f := (·.1)) hg) with hk | hk
        · have hle := Int32.not_lt.1 hle
          rw [hk]
          exact Int32.lt_of_le_of_ne hle fun heq => hne (heq ▸ beq_self_eq_true _)
        · obtain ⟨g', hg', he⟩ := List.mem_map.1 hk
          rw [← he]
          exact hhead g' hg'

/-- **Under a key stands exactly what has it.** -/
theorem grouped_groupByKey (key : α → Int32) (as : List α) : Grouped (groupByKey key as) ∧
    ∀ k a, Under (groupByKey key as) k a ↔ a ∈ as ∧ key a = k := by
  induction as using List.reverseRecOn with
  | nil => exact ⟨⟨List.Pairwise.nil, by simp [groupByKey]⟩, by simp [groupByKey, Under]⟩
  | append_singleton as a ih =>
    have hstep : groupByKey key (as ++ [a]) = insertKeyed (key a) a (groupByKey key as) := by
      rw [groupByKey, List.foldl_append]
      rfl
    rw [hstep]
    refine ⟨ih.1.insertKeyed, fun k b => ?_⟩
    rw [under_insertKeyed, ih.2, List.mem_append, List.mem_singleton]
    constructor
    · rintro (⟨rfl, rfl⟩ | ⟨hb, hk⟩)
      · exact ⟨.inr rfl, rfl⟩
      · exact ⟨.inl hb, hk⟩
    · rintro ⟨hb | rfl, hk⟩
      · exact .inr ⟨hb, hk⟩
      · exact .inl ⟨hk.symm, rfl⟩

end

/-! ## Plans -/

theorem nodup_of_allDistinct : ∀ {keys : List Int32}, allDistinct keys = true → keys.Nodup
  | [], _ => List.nodup_nil
  | k :: ks, h => by
    rw [allDistinct, Bool.and_eq_true, Bool.not_eq_true', List.contains_eq_mem, decide_eq_false_iff_not] at h
    exact List.nodup_cons.2 ⟨h.1, nodup_of_allDistinct h.2⟩

theorem minHash?_distinct {keys : List Int32} {shift : Nat} {mask : UInt32} (h : minHash? keys = some (shift, mask)) :
    allDistinct (keys.map (maskKey shift mask)) = true := by
  obtain ⟨b, -, hb⟩ := List.exists_of_findSome?_eq_some h
  dsimp only at hb
  obtain ⟨s, hs, he⟩ := Option.map_eq_some_iff.1 hb
  obtain ⟨rfl, rfl⟩ := Prod.mk.inj he
  exact List.find?_some (p := fun shift => allDistinct (keys.map (maskKey shift _))) hs

/-- **What a plan leaves of different keys is different.** -/
theorem nodup_casePlan (test : CaseTest) {keys : List Int32} (h : keys.Nodup) :
    (keys.map (maskKey (casePlan test keys).shift (casePlan test keys).mask)).Nodup := by
  have hid : (keys.map (maskKey 0 0)).Nodup := by
    rw [show maskKey 0 0 = id from rfl, List.map_id]
    exact h
  unfold casePlan
  split
  · exact hid
  · split
    · rename_i shift mask hmin
      exact nodup_of_allDistinct (minHash?_distinct hmin)
    · exact hid

theorem test_casePlan (test : CaseTest) (keys : List Int32) : (casePlan test keys).test = test := by
  unfold casePlan
  split
  · rfl
  · split <;> rfl

/-! ## Tables -/

section

variable {α : Type} {e : Int32 × α} {es : List (Int32 × α)}

theorem ascending_insertSorted (h : es.Pairwise fun a b => a.1 ≤ b.1) : (insertSorted e es).Pairwise fun a b => a.1 ≤ b.1 := by
  induction es with
  | nil => exact List.pairwise_singleton _ _
  | cons f rest ih =>
    obtain ⟨hhead, htail⟩ := List.pairwise_cons.1 h
    rw [insertSorted]
    split
    · rename_i hlt
      have hle := Int32.le_of_lt hlt
      refine List.pairwise_cons.2 ⟨List.forall_mem_cons.2 ⟨hle, fun g hg => Int32.le_trans hle (hhead g hg)⟩, h⟩
    · rename_i hge
      refine List.pairwise_cons.2 ⟨fun g hg => ?_, ih htail⟩
      rcases List.mem_cons.1 ((insertSorted_perm e rest).mem_iff.1 hg) with rfl | hg
      · exact Int32.not_lt.1 hge
      · exact hhead g hg

theorem ascending_sortByKey (es : List (Int32 × α)) : (sortByKey es).Pairwise fun a b => a.1 ≤ b.1 := by
  induction es using List.reverseRecOn with
  | nil => exact .nil
  | append_singleton es e ih =>
    rw [sortByKey_concat]
    exact ascending_insertSorted ih

end

/-- What a test asks of its constants. -/
def Suits : CaseTest → Form → Bool
  | .int, f => isSmallInt f
  | .hashIdentity, f => isKeywordForm f
  | .hashEquiv, _ => true

theorem suits_caseTest {tests : List Form} {f : Form} (hf : f ∈ tests) : Suits (caseTest tests) f = true := by
  unfold caseTest
  split
  · rename_i hall
    exact List.all_eq_true.1 hall f hf
  · split
    · rename_i hall
      exact List.all_eq_true.1 hall f hf
    · rfl

/-- A table in which every constant stands under its key. -/
structure Keyed (plan : CasePlan) (buckets : List (Int32 × List (Form × Expr))) : Prop where
  ascending : buckets.Pairwise fun b b' => b.1 < b'.1
  inhabited : ∀ b ∈ buckets, b.2 ≠ []
  keyed : ∀ b ∈ buckets, ∀ e ∈ b.2, maskKey plan.shift plan.mask (rawKey plan.test e.1) = b.1
  suits : ∀ b ∈ buckets, ∀ e ∈ b.2, Suits plan.test e.1 = true

/-! ## Clauses -/

/-- The test is one of the constants of a clause that has this value. -/
def TestOf (clauses : List (Form × Form)) (test value : Form) : Prop :=
  ∃ p ∈ clauses, p.2 = value ∧ ∃ t ∈ clauseTests p.1, t.withInfo none = test

section

variable {clauses : List (Form × Form)} {constants : List CaseConstant} {test test' value value' : Form}

theorem foldlM_constants {all seen cs : List CaseConstant}
    (h : (all.foldlM (fun seen c => if seen.any fun s => s.test == c.test then .error (.duplicateCaseTest c.test) else .ok (seen ++ [c]))
      seen : Except CompileFault (List CaseConstant)) = .ok cs) (hseen : seen.Pairwise fun s c => (s.test == c.test) = false) :
    cs = seen ++ all ∧ cs.Pairwise fun s c => (s.test == c.test) = false := by
  induction all generalizing seen with
  | nil =>
    cases h
    exact ⟨(List.append_nil _).symm, hseen⟩
  | cons c all ih =>
    rw [List.foldlM_cons] at h
    split at h
    · cases h
    · rename_i hnew
      obtain ⟨hcs, hp⟩ := ih h (List.pairwise_append.2 ⟨hseen, List.pairwise_singleton _ _, fun s hs c' hc' => by
        rw [List.mem_singleton.1 hc']
        exact Bool.eq_false_iff.2 fun heq => hnew (List.any_eq_true.2 ⟨s, hs, heq⟩)⟩)
      exact ⟨by rw [hcs, List.append_assoc]; rfl, hp⟩

theorem caseConstants_eq_ok (h : caseConstants clauses = .ok constants) :
    (constants.Pairwise fun s c => (s.test == c.test) = false) ∧
    ∀ c, c ∈ constants ↔ ∃ p, clauses[c.clause]? = some p ∧ ∃ t ∈ clauseTests p.1, t.withInfo none = c.test := by
  obtain ⟨rfl, hp⟩ := foldlM_constants h .nil
  refine ⟨hp, fun c => ?_⟩
  simp only [List.nil_append, List.mem_flatMap, List.mem_map, Prod.exists, List.mem_zipIdx_iff_getElem?]
  constructor
  · rintro ⟨test, value, i, hi, t, ht, rfl⟩
    exact ⟨test, value, hi, t, ht, rfl⟩
  · rintro ⟨test, value, hi, t, ht, he⟩
    exact ⟨test, value, c.clause, hi, t, ht, by rw [he]⟩

/-- The tests are not equal to each other. -/
def CaseConstant.Differs (s c : CaseConstant) : Prop := ¬((s.test == c.test) = true ∧ (c.test == s.test) = true)

/-- Equal tests stand in one clause. -/
theorem clause_unique (h : caseConstants clauses = .ok constants) (ht : TestOf clauses test value) (ht' : TestOf clauses test' value')
    (heq : (test == test') = true) (hsymm : (test' == test) = true) : value = value' := by
  obtain ⟨hp, hmem⟩ := caseConstants_eq_ok h
  have hconstant : ∀ {test value}, TestOf clauses test value → ∃ c ∈ constants, c.test = test ∧
      (clauses[c.clause]?).map (·.2) = some value := by
    rintro test value ⟨p, hp, rfl, t, ht, rfl⟩
    obtain ⟨i, hi⟩ := List.mem_iff_getElem?.1 hp
    exact ⟨⟨t.withInfo none, i⟩, (hmem _).2 ⟨p, hi, t, ht, rfl⟩, rfl, by rw [hi]; rfl⟩
  obtain ⟨s, hs, rfl, hvalue⟩ := hconstant ht
  obtain ⟨c, hc, rfl, hvalue'⟩ := hconstant ht'
  have : Std.Symm CaseConstant.Differs := ⟨fun _ _ h h' => h h'.symm⟩
  have hdiffer : constants.Pairwise CaseConstant.Differs := hp.imp fun h h' => absurd h'.1 (ne_true_of_eq_false h)
  have hsame : s = c := by_contra fun hne => hdiffer.forall hs hc hne ⟨heq, hsymm⟩
  rw [hsame, hvalue'] at hvalue
  exact (Option.some.inj hvalue).symm

end

/-! ## The analysis of a choice -/

/-- The analyzer makes the expression of the form in some context. -/
def Makes (rec : Analyzer) (demand : Demand) (f : Form) (e : Expr) : Prop := ∃ c c', rec demand f c = (.ok e, c')

/-- The entries of a table are the constants of the clauses, each with an expression of its clause's value. -/
structure Tabulates (rec : Analyzer) (demand : Demand) (clauses : List (Form × Form)) (plan : CasePlan)
    (buckets : List (Int32 × List (Form × Expr))) : Prop extends Keyed plan buckets where
  sound : ∀ b ∈ buckets, ∀ e ∈ b.2, ∃ value, TestOf clauses e.1 value ∧ Makes rec demand value e.2
  complete : ∀ test value, TestOf clauses test value → ∃ b ∈ buckets, ∃ e ∈ b.2, e.1 = test ∧ Makes rec demand value e.2

/-- The default of a choice is analyzed where the local of the dispatch value is visible, in a world that differs from the one
at the start by what the analysis of the dispatch and of the clauses did to it. -/
def FallsTo (rec : Analyzer) (demand : Demand) (dispatch : Form) (clauses : List (Form × Form)) (default : Option Form) (w : World)
    (temp : Nat) (e : Expr) : Prop :=
  ∃ name c c', caseDefault rec demand default name c = (.ok e, c') ∧ c.lookupLocal? name = some temp ∧
    ∀ Q : World → Prop, (∀ w g, Q w → Q { w with gensym := g }) →
      (∀ f ∈ dispatch :: clauses.map (·.2), ∀ demand, Outlasts Q (rec demand f)) → Q w → Q c.world

theorem FallsTo.makes {rec : Analyzer} {demand : Demand} {dispatch f : Form} {clauses : List (Form × Form)} {w : World} {temp : Nat}
    {e : Expr} (h : FallsTo rec demand dispatch clauses (some f) w temp e) : Makes rec demand f e := by
  obtain ⟨name, c, c', h, -⟩ := h
  exact ⟨c, c', h⟩

/-- An analysis that succeeds keeps the property of the context. -/
def Upholds {α : Type} (P : Context → Prop) (x : Analysis α) : Prop := ∀ c a c', P c → x c = (.ok a, c') → P c'

/-- The same locals are visible, and the world has the property. -/
def Stays (env : List (Symbol × Nat)) (Q : World → Prop) (c : Context) : Prop := c.scope.env = env ∧ Q c.world

section

variable {α β : Type} {P : Context → Prop} {env : List (Symbol × Nat)} {Q : World → Prop}

theorem Upholds.bind {x : Analysis α} {f : α → Analysis β} (hx : Upholds P x) (hf : ∀ a, Upholds P (f a)) : Upholds P (x >>= f) := by
  intro c b c' hc h
  obtain ⟨a, c₁, h₁, h₂⟩ := bind_eq_ok h
  exact hf a c₁ b c' (hx c a c₁ hc h₁) h₂

theorem upholds_pure (a : α) : Upholds P (Pure.pure a : Analysis α) := by
  intro c a' c' hc h
  cases h
  exact hc

theorem upholds_forList {f : α → Analysis β} {as : List α} (h : ∀ a ∈ as, Upholds P (f a)) : Upholds P (forList f as) := by
  induction as with
  | nil => exact upholds_pure _
  | cons a as ih =>
    obtain ⟨ha, has⟩ := List.forall_mem_cons.1 h
    exact ha.bind fun _ => (ih has).bind fun _ => upholds_pure _

theorem upholds_addPath (kind : PathKind) (parent : Option Nat) : Upholds (Stays env Q) (addPath kind parent) := by
  intro c a c' hc h
  cases h
  exact hc

/-- An arm is analyzed under a path of its own; the scope is put back afterwards. -/
theorem arm_eq_ok {branch : Nat} {x : Analysis α} {c c' : Context} {a : α} (h : arm branch x c = (.ok a, c')) :
    ∃ c₁ c₂, x c₁ = (.ok a, c₂) ∧ c₁.scope.env = c.scope.env ∧ c₁.world = c.world ∧ c' = { c₂ with scope := c.scope } := by
  obtain ⟨c₂, hrun, rfl⟩ := ok_of_nested h
  exact ⟨_, c₂, hrun, rfl, rfl, rfl⟩

theorem upholds_arm {branch : Nat} {x : Analysis α} (h : Outlasts Q x) : Upholds (Stays env Q) (arm branch x) := by
  intro c a c' hc hx
  obtain ⟨c₁, c₂, hrun, -, hworld, rfl⟩ := arm_eq_ok hx
  have hq := h c₁ (hworld ▸ hc.2)
  rw [hrun] at hq
  exact ⟨hc.1, hq⟩

end

section

variable {rec : Analyzer} {demand : Demand} {clauses : List (Form × Form)} {constants : List CaseConstant} {c c' : Context}
  {env : List (Symbol × Nat)} {Q : World → Prop}

/-- The expression of a clause's value, for one of its constants. -/
def caseEntry (rec : Analyzer) (demand : Demand) (clauses : List (Form × Form)) (branch : Nat) (constant : CaseConstant) :
    Analysis (Form × Expr) := do
  let value := ((clauses[constant.clause]?).map (·.2)).getD .nil
  return (constant.test, ← arm branch (rec demand value))

def caseBucket (rec : Analyzer) (demand : Demand) (clauses : List (Form × Form)) (branch : Nat) (plan : CasePlan)
    (group : Int32 × List CaseConstant) : Analysis (Int32 × List (Form × Expr)) := do
  let entries ← forList (caseEntry rec demand clauses branch) group.2
  return (maskKey plan.shift plan.mask group.1, entries)

theorem caseEntry_eq_ok {branch : Nat} {constant : CaseConstant} {entry : Form × Expr}
    (h : caseEntry rec demand clauses branch constant c = (.ok entry, c')) :
    entry.1 = constant.test ∧ Makes rec demand (((clauses[constant.clause]?).map (·.2)).getD .nil) entry.2 := by
  obtain ⟨e, c₁, h, he⟩ := bind_eq_ok h
  cases he
  obtain ⟨c₂, c₃, h, -⟩ := arm_eq_ok h
  exact ⟨rfl, c₂, c₃, h⟩

theorem caseBucket_eq_ok {branch : Nat} {plan : CasePlan} {group : Int32 × List CaseConstant} {bucket : Int32 × List (Form × Expr)}
    (h : caseBucket rec demand clauses branch plan group c = (.ok bucket, c')) :
    bucket.1 = maskKey plan.shift plan.mask group.1 ∧ group.2.Forall₂ (fun constant entry => entry.1 = constant.test ∧
      Makes rec demand (((clauses[constant.clause]?).map (·.2)).getD .nil) entry.2) bucket.2 := by
  obtain ⟨entries, c₁, h, he⟩ := bind_eq_ok h
  cases he
  exact ⟨rfl, (forList_eq_ok h).imp fun _ _ ⟨_, _, h⟩ => caseEntry_eq_ok h⟩

theorem upholds_caseEntry {branch : Nat} {constant : CaseConstant} {p : Form × Form} (hp : clauses[constant.clause]? = some p)
    (hs : Outlasts Q (rec demand p.2)) : Upholds (Stays env Q) (caseEntry rec demand clauses branch constant) := by
  unfold caseEntry
  rw [hp]
  exact (upholds_arm hs).bind fun _ => upholds_pure _

theorem upholds_caseBucket {branch : Nat} {plan : CasePlan} {group : Int32 × List CaseConstant}
    (hg : ∀ constant ∈ group.2, constant ∈ constants) (hc : caseConstants clauses = .ok constants) (hs : ∀ p ∈ clauses, Outlasts Q (rec demand p.2)) :
    Upholds (Stays env Q) (caseBucket rec demand clauses branch plan group) := by
  refine (upholds_forList fun constant hconstant => ?_).bind fun _ => upholds_pure _
  obtain ⟨p, hp, -⟩ := ((caseConstants_eq_ok hc).2 constant).1 (hg constant hconstant)
  exact upholds_caseEntry hp (hs p (List.mem_of_getElem? hp))

theorem exists_left {α β : Type} {R : α → β → Prop} {as : List α} {bs : List β} (h : as.Forall₂ R bs) : ∀ a ∈ as, ∃ b ∈ bs, R a b := by
  induction h with
  | nil => exact fun a ha => absurd ha List.not_mem_nil
  | cons hr _ ih => exact List.forall_mem_cons.2 ⟨⟨_, List.mem_cons_self, hr⟩, fun a ha => (ih a ha).imp fun _ h => h.imp_left (List.mem_cons_of_mem _)⟩

theorem exists_right {α β : Type} {R : α → β → Prop} {as : List α} {bs : List β} (h : as.Forall₂ R bs) : ∀ b ∈ bs, ∃ a ∈ as, R a b :=
  exists_left h.flip

/-- **The table of a choice is filled with the constants of its clauses.** -/
theorem tabulates_of_buckets (hc : caseConstants clauses = .ok constants) {test : CaseTest} (ht : test = caseTest (constants.map (·.test)))
    {groups : List (Int32 × List CaseConstant)} (hg : groups = groupByKey (fun c => rawKey test c.test) constants)
    {plan : CasePlan} (hp : plan = casePlan test (groups.map (·.1))) {branch : Nat} {buckets : List (Int32 × List (Form × Expr))}
    (hb : forList (caseBucket rec demand clauses branch plan) groups c = (.ok buckets, c')) :
    Tabulates rec demand clauses plan (sortByKey buckets) := by
  obtain ⟨hgrouped, hunder⟩ := grouped_groupByKey (fun c => rawKey test c.test) constants
  rw [← hg] at hgrouped hunder
  have hperm := sortByKey_perm buckets
  have htest : plan.test = test := by rw [hp, test_casePlan]
  have hall := (forList_eq_ok hb).imp fun _ _ ⟨_, _, h⟩ => caseBucket_eq_ok h
  -- what an entry comes from
  have hentry : ∀ b ∈ sortByKey buckets, ∀ e ∈ b.2, ∃ g constant, constant ∈ constants ∧ rawKey test constant.test = g ∧
      b.1 = maskKey plan.shift plan.mask g ∧ e.1 = constant.test ∧
      Makes rec demand (((clauses[constant.clause]?).map (·.2)).getD .nil) e.2 := by
    intro b hb e he
    obtain ⟨g, hg, hkey, hentries⟩ := exists_right hall b (hperm.mem_iff.1 hb)
    obtain ⟨constant, hconstant, he, hmakes⟩ := exists_right hentries e he
    obtain ⟨hmem, hraw⟩ := (hunder g.1 constant).1 ⟨g.2, hg, hconstant⟩
    exact ⟨g.1, constant, hmem, hraw, hkey, he, hmakes⟩
  have hkeys : buckets.map (·.1) = (groups.map (·.1)).map (maskKey plan.shift plan.mask) := by
    clear hb hentry hperm hgrouped hunder hp hg
    induction hall with
    | nil => rfl
    | cons h _ ih => rw [List.map_cons, List.map_cons, List.map_cons, ih, h.1]
  have hnodup : ((sortByKey buckets).map (·.1)).Nodup := by
    rw [(hperm.map (·.1)).nodup_iff, hkeys, hp]
    exact nodup_casePlan test (List.pairwise_map.2 (hgrouped.ascending.imp fun h => (Int32.ne_of_lt h)))
  refine ⟨⟨?_, ?_, ?_, ?_⟩, ?_, ?_⟩
  · exact ((ascending_sortByKey buckets).and (List.pairwise_map.1 hnodup)).imp fun h => Int32.lt_of_le_of_ne h.1 h.2
  · intro b hb hnil
    obtain ⟨g, hg, -, hentries⟩ := exists_right hall b (hperm.mem_iff.1 hb)
    rw [hnil, List.forall₂_nil_right_iff] at hentries
    exact hgrouped.inhabited g hg hentries
  · intro b hb e he
    obtain ⟨g, constant, -, hraw, hkey, heq, -⟩ := hentry b hb e he
    rw [htest, heq, hraw, hkey]
  · intro b hb e he
    obtain ⟨g, constant, hmem, -, -, heq, -⟩ := hentry b hb e he
    rw [htest, heq, ht]
    exact suits_caseTest (List.mem_map_of_mem hmem)
  · intro b hb e he
    obtain ⟨g, constant, hmem, -, -, heq, hmakes⟩ := hentry b hb e he
    obtain ⟨p, hi, t, htest, hinfo⟩ := ((caseConstants_eq_ok hc).2 constant).1 hmem
    rw [hi] at hmakes
    exact ⟨p.2, ⟨p, List.mem_of_getElem? hi, rfl, t, htest, hinfo.trans heq.symm⟩, hmakes⟩
  · rintro test value ⟨p, hpc, rfl, t, htest, rfl⟩
    obtain ⟨i, hi⟩ := List.mem_iff_getElem?.1 hpc
    have hmem := ((caseConstants_eq_ok hc).2 ⟨t.withInfo none, i⟩).2 ⟨p, hi, t, htest, rfl⟩
    obtain ⟨as, has, hin⟩ := (hunder _ _).2 ⟨hmem, rfl⟩
    obtain ⟨b, hb, -, hentries⟩ := exists_left hall _ has
    obtain ⟨e, he, heq, hmakes⟩ := exists_left hentries _ hin
    dsimp only at hmakes
    rw [hi] at hmakes
    exact ⟨b, hperm.mem_iff.2 hb, e, he, heq, hmakes⟩

/-- The choice among the constants, once the dispatch value has its local. -/
def caseTable (rec : Analyzer) (demand : Demand) (clauses : List (Form × Form)) (constants : List CaseConstant) (dispatch : Expr)
    (temp : Nat) (fallback : Analysis Expr) (line : Nat) : Analysis Expr := do
  let test := caseTest (constants.map (·.test))
  let groups := groupByKey (fun c => rawKey test c.test) constants
  let plan := casePlan test (groups.map (·.1))
  let branch ← addPath .branch (← scope).clearPath
  let buckets ← forList (caseBucket rec demand clauses branch plan) groups
  let otherwise ← arm branch fallback
  return .case dispatch temp plan (sortByKey buckets) otherwise line

theorem caseTable_eq_ok (hc : caseConstants clauses = .ok constants) {dispatch e : Expr} {temp line : Nat} {fallback : Analysis Expr}
    (h : caseTable rec demand clauses constants dispatch temp fallback line c = (.ok e, c')) :
    ∃ plan buckets otherwise, e = .case dispatch temp plan buckets otherwise line ∧ Tabulates rec demand clauses plan buckets ∧
      ∃ c₁ c₂, fallback c₁ = (.ok otherwise, c₂) ∧
        ∀ env Q, (∀ p ∈ clauses, Outlasts Q (rec demand p.2)) → Stays env Q c → Stays env Q c₁ := by
  obtain ⟨_, c₁, hscope, h⟩ := bind_eq_ok h
  cases hscope
  obtain ⟨branch, c₂, hbranch, h⟩ := bind_eq_ok h
  obtain ⟨buckets, c₃, hbuckets, h⟩ := bind_eq_ok h
  obtain ⟨otherwise, c₄, hotherwise, h⟩ := bind_eq_ok h
  cases h
  refine ⟨_, _, otherwise, rfl, tabulates_of_buckets hc rfl rfl rfl hbuckets, ?_⟩
  obtain ⟨c₅, c₆, hfallback, henv, hworld, -⟩ := arm_eq_ok hotherwise
  refine ⟨c₅, c₆, hfallback, fun env Q hs hstays => ?_⟩
  have hgroups : ∀ group ∈ groupByKey (fun c => rawKey (caseTest (constants.map (·.test))) c.test) constants, ∀ constant ∈ group.2,
      constant ∈ constants := fun group hg constant hconstant =>
    (((grouped_groupByKey _ constants).2 group.1 constant).1 ⟨group.2, hg, hconstant⟩).1
  have hstays := upholds_addPath _ _ _ _ _ hstays hbranch
  have hstays := upholds_forList (fun group hg => upholds_caseBucket (hgroups group hg) hc hs) _ _ _ hstays hbuckets
  exact ⟨henv.trans hstays.1, hworld ▸ hstays.2⟩

theorem ofExcept_eq_ok {α : Type} {x : Except CompileFault α} {a : α} (h : ofExcept x c = (.ok a, c')) : x = .ok a := by
  cases x with
  | ok a =>
    cases h
    rfl
  | error e => cases h

/-- **What a choice is analyzed into.**  Without clauses only the default is left; otherwise the clauses are found in a table. -/
theorem case_eq_ok (hd : demand ≠ .eval) {form head value : Form} {rest : List Form} {e : Expr}
    (h : case rec demand form (head :: value :: rest) c = (.ok e, c')) :
    ∃ constants dispatch temp otherwise, caseConstants (caseClauses rest).1 = .ok constants ∧ Makes rec demand.operand value dispatch ∧
      FallsTo rec demand value (caseClauses rest).1 (caseClauses rest).2 c.world temp otherwise ∧
      ((constants = [] ∧ e = .seq [dispatch, otherwise]) ∨
        constants ≠ [] ∧ ∃ plan buckets line, e = .case dispatch temp plan buckets otherwise line ∧
          Tabulates rec demand (caseClauses rest).1 plan buckets) := by
  unfold case at h
  rw [if_neg (by simpa using hd)] at h
  obtain ⟨_, c₁, hscope, h⟩ := bind_eq_ok h
  cases hscope
  obtain ⟨constants, c₂, hconstants, h⟩ := bind_eq_ok h
  have hok := ofExcept_eq_ok hconstants
  rw [hok] at hconstants
  cases hconstants
  obtain ⟨c₃, h, -⟩ := ok_of_nested h
  obtain ⟨dispatch, c₄, hdispatch, h⟩ := bind_eq_ok h
  obtain ⟨n, c₅, hgensym, h⟩ := bind_eq_ok h
  cases hgensym
  obtain ⟨temp, c₆, htemp, h⟩ := bind_eq_ok h
  -- the local of the dispatch value is the innermost one
  have hlookup : c₆.lookupLocal? (Symbol.plain ("case__temp__" ++ toString c₄.world.gensym)) = some temp := by
    cases htemp
    simp [Context.lookupLocal?, Symbol.plain, Symbol.isQualified]
  have hworld : ∀ Q : World → Prop, (∀ w g, Q w → Q { w with gensym := g }) → (∀ demand, Outlasts Q (rec demand value)) →
      Q c.world → Q c₆.world := by
    intro Q hgensym hvalue hq
    have hq : Q c₄.world := by
      have hq := hvalue demand.operand _ hq
      rwa [hdispatch] at hq
    cases htemp
    exact hgensym c₄.world _ hq
  split at h
  · rename_i hnone
    obtain ⟨otherwise, c₇, hotherwise, h⟩ := bind_eq_ok h
    cases h
    refine ⟨constants, dispatch, temp, otherwise, hok, ⟨_, _, hdispatch⟩, ⟨_, _, _, hotherwise, hlookup, fun Q hgensym hs => ?_⟩,
      .inl ⟨List.isEmpty_iff.1 hnone, rfl⟩⟩
    exact hworld Q hgensym (hs value List.mem_cons_self)
  · rename_i hsome
    -- a collision is only reported
    obtain ⟨line, c₇, h, hsame⟩ : ∃ line c₇, caseTable rec demand (caseClauses rest).1 constants dispatch temp
        (caseDefault rec demand (caseClauses rest).2 (Symbol.plain ("case__temp__" ++ toString c₄.world.gensym))) line c₇ = (.ok e, c₃) ∧
        c₇.scope = c₆.scope ∧ c₇.world = c₆.world := by
      dsimp only at h
      split at h
      · obtain ⟨_, c₇, hoptions, h⟩ := bind_eq_ok h
        cases hoptions
        obtain ⟨_, c₈, hwarn, h⟩ := bind_eq_ok h
        cases hwarn
        exact ⟨_, _, h, rfl, rfl⟩
      · exact ⟨_, c₆, h, rfl, rfl⟩
    obtain ⟨plan, buckets, otherwise, he, htable, c₈, c₉, hotherwise, hstays⟩ := caseTable_eq_ok hok h
    obtain ⟨hscope, hsame⟩ := hsame
    refine ⟨constants, dispatch, temp, otherwise, hok, ⟨_, _, hdispatch⟩, ⟨_, _, _, hotherwise, ?_, fun Q hgensym hs hq => ?_⟩,
      .inr ⟨fun hnil => hsome (List.isEmpty_iff.2 hnil), plan, buckets, line, he, htable⟩⟩
    · have henv := (hstays c₆.scope.env (fun _ => True) (fun _ _ _ _ => trivial) ⟨congrArg Scope.env hscope, trivial⟩).1
      unfold Context.lookupLocal? at hlookup ⊢
      rwa [henv]
    · obtain ⟨hvalue, hclauses⟩ := List.forall_mem_cons.1 hs
      have hq := hworld Q hgensym hvalue hq
      rw [← hsame] at hq
      exact (hstays c₇.scope.env Q (fun p hp => hclauses p.2 (List.mem_map_of_mem hp) demand) ⟨rfl, hq⟩).2

end

end LispMachine.Analyze
