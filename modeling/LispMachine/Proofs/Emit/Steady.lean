import LispMachine.Proofs.Code.Accepted
import LispMachine.Proofs.Emit.Placed
/-!
# Code in the making that the checker will accept

While code is emitted it is known how deep the stack is in front of each instruction, the next one
included, and with which depth each label is reached (`Emission.Steady`).  A place that control cannot
come to has no depth, and a label that nothing jumps to has none either: the common exit of arms that
all return is such a label, and it may stand behind the last instruction.

`Runs` says of an emission that it keeps code steady: it binds the labels it is given and the new ones,
starts at one depth and ends at another.  What it may rely on is a list of facts, none of which later
emission can undo.
-/
namespace LispMachine

/-! ## Indices -/

/-- How many slots the method has and how many fields its object, and which units may be nested in it. -/
structure Bounds where
  slots : Nat
  fields : Nat
  admits : CompiledUnit → Prop

/-- The sizes of the tables so far. -/
def Pool.limits (p : Pool) (fields : Nat) : Verify.Limits :=
  { constants := p.constants.size, fields, keywordSites := p.keywordSites.size, protocolSites := p.protocolSites.size,
    children := p.children.reverse.map (·.closed.length) }

/-- What the instruction names, but for its labels, exists already. -/
structure Instr.Fits (b : Bounds) (p : Pool) (i : Instr) : Prop where
  slot : ∀ s, Verify.localOf? i = some s → s < b.slots
  tables : ∀ r ∈ Verify.references (p.limits b.fields) i, r.2.1 < r.2.2
  captured : ∀ u n, i = .newFn u n → (p.limits b.fields).children[u]? = some n

namespace Pool

variable {p q : Pool}

theorem size_le_of_kept {α : Type} {xs ys : Array α} (h : ∀ (i : Nat) (a : α), xs[i]? = some a → ys[i]? = some a) :
    xs.size ≤ ys.size := by
  refine Nat.le_of_not_lt fun hlt => ?_
  have hy := h ys.size _ (Array.getElem?_eq_getElem hlt)
  exact Nat.lt_irrefl _ (Array.getElem?_eq_some_iff.1 hy).1

theorem In.children_kept (h : In p q) {u n : Nat} (hu : (p.children.reverse.map (·.closed.length))[u]? = some n) :
    (q.children.reverse.map (·.closed.length))[u]? = some n := by
  rw [List.getElem?_map, Option.map_eq_some_iff] at hu ⊢
  obtain ⟨c, hc, hn⟩ := hu
  exact ⟨c, h.children u c hc, hn⟩

theorem In.children_le (h : In p q) : p.children.length ≤ q.children.length := by
  refine Nat.le_of_not_lt fun hlt => ?_
  have hlt' : q.children.length < p.children.reverse.length := by rwa [List.length_reverse]
  have hq := h.children q.children.length _ (List.getElem?_eq_getElem hlt')
  have := (List.getElem?_eq_some_iff.1 hq).1
  rw [List.length_reverse] at this
  exact Nat.lt_irrefl _ this

end Pool

/-- Tables only grow. -/
theorem Instr.Fits.grow {b : Bounds} {p q : Pool} {i : Instr} (h : i.Fits b p) (hp : p.In q) : i.Fits b q := by
  refine ⟨h.slot, ?_, fun u n hi => hp.children_kept (h.captured u n hi)⟩
  have hc := Pool.size_le_of_kept hp.constants
  have hk := Pool.size_le_of_kept hp.keywordSites
  have hs := Pool.size_le_of_kept hp.protocolSites
  have hu := hp.children_le
  have ht := h.tables
  cases i with
  | varDef v init info =>
    cases info <;> simp only [Verify.references, Pool.limits, List.mem_cons, List.not_mem_nil, or_false, forall_eq_or_imp,
      forall_eq] at ht ⊢ <;> omega
  | _ =>
    simp only [Verify.references, Pool.limits, List.mem_cons, List.not_mem_nil, or_false, forall_eq_or_imp, forall_eq,
      List.length_map, List.length_reverse, false_implies, implies_true] at ht ⊢
    try omega

namespace Instr

variable {b : Bounds} {p : Pool} {i : Instr}

/-- It names nothing and goes on to the next instruction. -/
def isPlain : Instr → Bool
  | .nil | .pushBool _ | .pushLong _ | .pushDouble _ | .pushInt _ | .pop | .dup | .box _ | .unbox _ | .convert .. | .loadThis
  | .initField _ | .hash | .shiftMask .. | .invoke _ | .makeVector _ | .makeMap _ | .makeSet _ => true
  | _ => false

/-- It names no slot and no entry of a table. -/
theorem fits_of_none (hs : Verify.localOf? i = none) (hr : ∀ limits, Verify.references limits i = [])
    (hc : ∀ u n, i ≠ .newFn u n) : i.Fits b p := by
  refine ⟨fun s h => ?_, fun r h => ?_, fun u n h => absurd h (hc u n)⟩
  · rw [hs] at h
    cases h
  · rw [hr] at h
    cases h

theorem isPlain_spec (h : i.isPlain = true) : i.isTerminal = false ∧ i.targets = [] ∧ i.Fits b p := by
  cases i
  case nil | pushBool | pushLong | pushDouble | pushInt | pop | dup | box | unbox | convert | loadThis | initField | hash | shiftMask
      | invoke | makeVector | makeMap | makeSet =>
    exact ⟨rfl, rfl, fits_of_none rfl (fun _ => rfl) fun _ _ => Instr.noConfusion⟩
  all_goals cases h

theorem fits_of_slot {s : Nat} (hs : Verify.localOf? i = some s) (hr : ∀ limits, Verify.references limits i = [])
    (hc : ∀ u n, i ≠ .newFn u n) (h : s < b.slots) : i.Fits b p := by
  refine ⟨fun s' h' => ?_, fun r h => ?_, fun u n h => absurd h (hc u n)⟩
  · rw [hs] at h'
    cases h'
    exact h
  · rw [hr] at h
    cases h

/-- An instruction that refers to the tables alone. -/
theorem fits_of_references (hs : Verify.localOf? i = none) (hc : ∀ u n, i ≠ .newFn u n)
    (hr : ∀ r ∈ Verify.references (p.limits b.fields) i, r.2.1 < r.2.2) : i.Fits b p := by
  refine ⟨fun s h => ?_, hr, fun u n h => absurd h (hc u n)⟩
  rw [hs] at h
  cases h

end Instr

namespace Pool

variable {p : Pool}

theorem Provides.constant_lt {c : Constant} {i : Nat} (h : p.Provides (.constant c) i) : i < p.constants.size := by
  obtain ⟨_, hc, _⟩ := h
  exact (Array.getElem?_eq_some_iff.1 hc).1

theorem Provides.keyword_lt {k : Keyword} {i : Nat} (h : p.Provides (.keyword k) i) : i < p.keywordSites.size :=
  (Array.getElem?_eq_some_iff.1 h).1

theorem Provides.protocol_lt {m : Symbol} {i : Nat} (h : p.Provides (.protocol m) i) : i < p.protocolSites.size :=
  (Array.getElem?_eq_some_iff.1 h).1

/-- An instruction whose only reference is to a constant. -/
theorem Provides.fits_constant {b : Bounds} {c : Constant} {e : Nat} {i : Instr} (h : p.Provides (.constant c) e)
    (hs : Verify.localOf? i = none) (hc : ∀ u n, i ≠ .newFn u n)
    (hr : ∀ limits, Verify.references limits i = [("constant", e, limits.constants)]) : i.Fits b p := by
  refine Instr.fits_of_references hs hc fun r hm => ?_
  rw [hr, List.mem_singleton] at hm
  rw [hm]
  exact h.constant_lt

/-- A closure of a nested unit takes what the unit closes over. -/
theorem Provides.fits_newFn {b : Bounds} {u : CompiledUnit} {e n : Nat} (h : p.Provides (.child u) e)
    (hn : n = u.closed.length) : (Instr.newFn e n).Fits b p := by
  have hc : (p.limits b.fields).children[e]? = some n := by
    simp only [Pool.limits, List.getElem?_map]
    rw [show p.children.reverse[e]? = some u from h, hn]
    rfl
  refine ⟨(fun s h => by cases h), fun r hr => ?_, fun e' n' he => ?_⟩
  · simp only [Verify.references, List.mem_singleton] at hr
    rw [hr]
    exact (List.getElem?_eq_some_iff.1 hc).1
  · cases he
    exact hc

end Pool

/-! ## Steady code -/

/-- The instruction finds what it pops, and where it leads the stack is as deep as its effect says. -/
structure Instr.Passes (depths : Nat → Option Nat) (heights : Label → Option Nat) (pc d : Nat) (i : Instr) : Prop where
  pops : i.effect.1 ≤ d
  jumps : ∀ l ∈ i.targets, heights l = some (d - i.effect.1 + i.effect.2)
  falls : i.isTerminal = false → depths (pc + 1) = some (d - i.effect.1 + i.effect.2)

/-- The first label stands at or before the second. -/
def Emission.Ordered (s : Emission) (l l' : Label) : Prop :=
  ∃ pc pc', s.code.labels[l]? = some (some pc) ∧ s.code.labels[l']? = some (some pc') ∧ pc ≤ pc'

/-- The code so far agrees with the depths in front of its instructions and with the heights of its labels. -/
structure Emission.Steady (b : Bounds) (depths : Nat → Option Nat) (heights : Label → Option Nat) (s : Emission) : Prop where
  fits : ∀ (pc : Nat) (i : Instr), s.code.code[pc]? = some i → i.Fits b s.pool
  known : ∀ (pc : Nat) (i : Instr), s.code.code[pc]? = some i → ∀ l ∈ i.targets, l < s.code.labels.size
  flow : ∀ (pc : Nat) (i : Instr) (d : Nat), s.code.code[pc]? = some i → depths pc = some d → i.Passes depths heights pc d
  labels : ∀ (l pc : Nat), s.code.labels[l]? = some (some pc) → pc ≤ s.size ∧ ∀ h, heights l = some h → depths pc = some h
  ended : Emit.ended s = true → depths s.size = none
  handlers : ∀ h ∈ s.code.handlers, s.Ordered h.start h.stop ∧ h.target < s.code.labels.size ∧ heights h.target = some 1
  units : ∀ u ∈ s.pool.children, b.admits u

namespace Emit

/-- What later emission cannot undo. -/
inductive Fact where
  /-- The label is reached with this depth, or by nothing. -/
  | height (l : Label) (h : Option Nat)
  | entry (n : Need) (i : Nat)
  /-- Both labels are bound, in this order. -/
  | ordered (l l' : Label)

def Fact.Holds (heights : Label → Option Nat) (s : Emission) : Fact → Prop
  | .height l h => l < s.code.labels.size ∧ heights l = h
  | .entry n i => s.pool.Provides n i
  | .ordered l l' => s.Ordered l l'

/-- The depth in front of the next instruction, if control comes there. -/
def Comes (depths : Nat → Option Nat) (s : Emission) (d : Option Nat) : Prop := depths s.size = none ∨ depths s.size = d

/-- Emission goes on from one state to another; of the old labels only `marks` are touched, and they and all
new ones are bound. -/
structure Extends (s : Emission) (heights : Label → Option Nat) (s' : Emission) (heights' : Label → Option Nat)
    (marks : List Label) : Prop where
  spares : s.Spares s' marks
  heights : ∀ l, l < s.code.labels.size → heights' l = heights l
  bound : ∀ l : Label, s'.code.labels[l]? = some none → l < s.code.labels.size ∧ l ∉ marks
  pool : s.pool.In s'.pool

/-- The facts that an emission adds and the depth at its end. -/
abbrev Outcome := List Fact × Option Nat

variable {α β : Type}

/-- The emission keeps code steady: from a place of the depth `pre`, with the labels `marks` open and the
facts at hand, to what `post` says. -/
def Runs (b : Bounds) (facts : List Fact) (marks : List Label) (pre : Option Nat) (x : Emit α) (post : α → Outcome) : Prop :=
  ∀ (s : Emission) (a : α) (s' : Emission) (depths : Nat → Option Nat) (heights : Label → Option Nat),
    x s = .ok (a, s') → s.Steady b depths heights → (∀ f ∈ facts, f.Holds heights s) →
    (∀ l ∈ marks, s.code.labels[l]? = some none) → Comes depths s pre →
    ∃ depths' heights', s'.Steady b depths' heights' ∧ Comes depths' s' (post a).2 ∧
      (∀ f ∈ (post a).1, f.Holds heights' s') ∧ Extends s heights s' heights' marks

/-- An emission that adds no fact. -/
abbrev Steps (b : Bounds) (facts : List Fact) (marks : List Label) (pre : Option Nat) (x : Emit α) (post : Option Nat) : Prop :=
  Runs b facts marks pre x fun _ => ([], post)

section

variable {s s' s'' : Emission} {depths : Nat → Option Nat} {heights heights' heights'' : Label → Option Nat}
  {ms ms' : List Label}

theorem Extends.refl (s : Emission) (heights : Label → Option Nat) (hb : ∀ l, s.code.labels[l]? = some none → l ∉ ms) :
    Extends s heights s heights ms :=
  ⟨.refl s ms, fun _ _ => rfl, fun l hl => ⟨(Array.getElem?_eq_some_iff.1 hl).1, hb l hl⟩, .refl _⟩

theorem Extends.trans (h : Extends s heights s' heights' ms) (h' : Extends s' heights' s'' heights'' ms') :
    Extends s heights s'' heights'' (ms ++ ms') := by
  refine ⟨h.spares.trans h'.spares, fun l hl => ?_, fun l hl => ?_, h.pool.trans h'.pool⟩
  · rw [h'.heights l (Nat.lt_of_lt_of_le hl h.spares.size), h.heights l hl]
  · obtain ⟨hlt, hn'⟩ := h'.bound l hl
    rw [h'.spares.same l hlt hn'] at hl
    obtain ⟨hlt, hn⟩ := h.bound l hl
    exact ⟨hlt, by rw [List.mem_append, not_or]; exact ⟨hn, hn'⟩⟩

/-- A label that is bound stays where it is. -/
theorem Extends.label (h : Extends s heights s' heights' ms) (hm : ∀ l ∈ ms, s.code.labels[l]? = some none) {l pc : Nat}
    (hl : s.code.labels[l]? = some (some pc)) : s'.code.labels[l]? = some (some pc) := by
  rw [h.spares.same l (Array.getElem?_eq_some_iff.1 hl).1 fun hm' => ?_, hl]
  rw [hm l hm'] at hl
  cases hl

theorem Extends.ordered (h : Extends s heights s' heights' ms) (hm : ∀ l ∈ ms, s.code.labels[l]? = some none)
    {l l' : Label} (ho : s.Ordered l l') : s'.Ordered l l' := by
  obtain ⟨pc, pc', hl, hl', hle⟩ := ho
  exact ⟨pc, pc', h.label hm hl, h.label hm hl', hle⟩

theorem Extends.holds (h : Extends s heights s' heights' ms) (hm : ∀ l ∈ ms, s.code.labels[l]? = some none) {f : Fact}
    (hf : f.Holds heights s) : f.Holds heights' s' := by
  cases f with
  | height l d => exact ⟨Nat.lt_of_lt_of_le hf.1 h.spares.size, (h.heights l hf.1).trans hf.2⟩
  | entry n i => exact h.pool.provides hf
  | ordered l l' => exact h.ordered hm hf

end

/-! ## Rules -/

section

variable {b : Bounds} {K K' : List Fact} {ms ms' : List Label} {pre mid post : Option Nat} {x : Emit α} {f : α → Emit β}
  {d : Nat}

theorem Runs.knowing {out : α → Outcome} (h : Runs b K ms pre x out) (hK : ∀ f ∈ K, f ∈ K') : Runs b K' ms pre x out :=
  fun s a s' D H hx hs hf hm hc => h s a s' D H hx hs (fun f hf' => hf f (hK f hf')) hm hc

/-- An emission that control never comes to. -/
theorem Runs.dead {out : α → Outcome} (h : Runs b K ms pre x out) : Runs b K ms none x out :=
  fun s a s' D H hx hs hf hm hc => h s a s' D H hx hs hf hm (.inl (hc.elim id id))

/-- An emission whose end control never comes to. -/
theorem Runs.left {out : α → Outcome} (h : Runs b K ms pre x out) (ho : ∀ a, (out a).2 = none)
    (post : Option Nat) : Runs b K ms pre x fun a => ((out a).1, post) := by
  intro s a s' D H hx hs hf hm hc
  obtain ⟨D', H', hs', hc', rest⟩ := h s a s' D H hx hs hf hm hc
  rw [ho a] at hc'
  exact ⟨D', H', hs', .inl (hc'.elim id id), rest⟩

theorem Steps.left (h : Steps b K ms pre x none) (post : Option Nat) : Steps b K ms pre x post := Runs.left h (fun _ => rfl) post

/-- A result of which something is known already. -/
theorem runs_result {F : α → List Fact} (a : α) (hF : ∀ f ∈ F a, f ∈ K) :
    Runs b K [] pre (pure a : Emit α) fun a => (F a, pre) := by
  intro s a' s' D H hx hs hK _ hc
  cases hx
  exact ⟨D, H, hs, hc, fun f hf => hK f (hF f hf), .refl s H fun _ _ h => by cases h⟩

theorem runs_pure (a : α) : Steps b K [] pre (pure a : Emit α) pre := runs_result a fun _ h => by cases h

theorem runs_throw (e : CompileFault) (out : α → Outcome) : Runs b K ms pre (throw e : Emit α) out :=
  fun s a s' D H hx => by cases hx

/-- One emission after the other; the second binds no label that the first binds. -/
theorem runs_bind {out : α → Outcome} {out' : β → Outcome} (hx : Runs b K ms pre x out)
    (hf : ∀ a, Runs b ((out a).1 ++ K) ms' (out a).2 (f a) out') (hd : ∀ l ∈ ms', l ∉ ms) :
    Runs b K (ms ++ ms') pre (x >>= f) out' := by
  intro s c s' D H h hs hK hm hc
  obtain ⟨a, s₁, h₁, h₂⟩ := bind_eq_ok h
  have hm₁ : ∀ l ∈ ms, s.code.labels[l]? = some none := fun l hl => hm l (List.mem_append_left _ hl)
  obtain ⟨D₁, H₁, hs₁, hc₁, hf₁, he₁⟩ := hx s a s₁ D H h₁ hs hK hm₁ hc
  have hK₁ : ∀ f ∈ (out a).1 ++ K, f.Holds H₁ s₁ := by
    intro f hf
    rcases List.mem_append.1 hf with hf | hf
    · exact hf₁ f hf
    · exact he₁.holds hm₁ (hK f hf)
  have hopen : ∀ l ∈ ms', s₁.code.labels[l]? = some none := by
    intro l hl
    have ho := hm l (List.mem_append_right _ hl)
    rw [he₁.spares.same l (Array.getElem?_eq_some_iff.1 ho).1 (hd l hl)]
    exact ho
  obtain ⟨D₂, H₂, hs₂, hc₂, hf₂, he₂⟩ := hf a s₁ c s' D₁ H₁ h₂ hs₁ hK₁ hopen hc₁
  exact ⟨D₂, H₂, hs₂, hc₂, hf₂, he₁.trans he₂⟩

/-- The first of two emissions binds no label. -/
theorem runs_then {z : Emit β} {out : β → Outcome} (hx : Steps b K [] pre x mid) (hz : Runs b K ms mid z out) :
    Runs b K ms pre (x >>= fun _ => z) out := runs_bind hx (fun _ => hz) fun _ _ h => by cases h

/-- The first of two emissions binds no label and has a result that facts are known of. -/
theorem runs_with {out : α → Outcome} {out' : β → Outcome} (hx : Runs b K [] pre x out)
    (hf : ∀ a, Runs b ((out a).1 ++ K) ms (out a).2 (f a) out') : Runs b K ms pre (x >>= f) out' :=
  runs_bind hx hf fun _ _ h => by cases h

theorem runs_marking (ms : List Label) {ms' : List Label} {out : α → Outcome} (h : Runs b K ms pre x out)
    (hsub : ∀ l, l ∈ ms ↔ l ∈ ms') :
    Runs b K ms' pre x out := by
  intro s a s' D H hx hs hf hm hc
  obtain ⟨D', H', hs', hc', hf', he⟩ := h s a s' D H hx hs hf (fun l hl => hm l ((hsub l).1 hl)) hc
  refine ⟨D', H', hs', hc', hf', ⟨he.spares.size, fun l hl hn => he.spares.same l hl fun h => hn ((hsub l).1 h)⟩,
    he.heights, fun l hl => ?_, he.pool⟩
  exact ⟨(he.bound l hl).1, fun h => (he.bound l hl).2 ((hsub l).2 h)⟩

/-! ## Steps that emit no instruction -/

/-- The code and the labels stay as they are. -/
theorem runs_of_same {out : α → Outcome} (h : ∀ s a s', x s = .ok (a, s') →
    s'.code.code = s.code.code ∧ s'.code.labels = s.code.labels ∧ s'.markedAt = s.markedAt ∧ s.pool.In s'.pool ∧ (out a).2 = pre)
    (hh : ∀ s a s' (H : Label → Option Nat), x s = .ok (a, s') → (∀ f ∈ K, f.Holds H s) → ∀ h ∈ s'.code.handlers, h ∈ s.code.handlers ∨
      (s.Ordered h.start h.stop ∧ h.target < s.code.labels.size ∧ H h.target = some 1))
    (hu : ∀ s a s', x s = .ok (a, s') → ∀ u ∈ s'.pool.children, u ∈ s.pool.children ∨ b.admits u)
    (hf : ∀ s a s' H, x s = .ok (a, s') → ∀ f ∈ (out a).1, f.Holds H s') : Runs b K [] pre x out := by
  intro s a s' D H hx hs hK _ hc
  obtain ⟨hcode, hlabels, hmark, hpool, hpost⟩ := h s a s' hx
  have hsize : s'.size = s.size := by simp only [Emission.size, hcode]
  refine ⟨D, H, ⟨fun pc i hi => ?_, fun pc i hi l hl => ?_, fun pc i d hi => ?_, fun l pc hl => ?_, fun he => ?_, fun h hm => ?_,
    fun u hm => ?_⟩, ?_, hf s a s' H hx, ⟨⟨?_, fun l _ _ => ?_⟩, fun _ _ => rfl, fun l hl => ?_, hpool⟩⟩
  · exact (hs.fits pc i (hcode ▸ hi)).grow hpool
  · rw [hlabels]
    exact hs.known pc i (hcode ▸ hi) l hl
  · exact hs.flow pc i d (hcode ▸ hi)
  · rw [hsize]
    exact hs.labels l pc (hlabels ▸ hl)
  · rw [hsize]
    refine hs.ended ?_
    simpa only [Emit.ended, hcode, hmark] using he
  · simp only [Emission.Ordered, hlabels]
    exact (hh s a s' H hx hK h hm).elim (hs.handlers h) id
  · exact (hu s a s' hx u hm).elim (hs.units u) id
  · rw [Comes, hsize, hpost]
    exact hc
  · exact Nat.le_of_eq (by rw [hlabels])
  · rw [hlabels]
  · rw [hlabels] at hl
    exact ⟨(Array.getElem?_eq_some_iff.1 hl).1, fun h => by cases h⟩

theorem runs_atLine (n : Nat) : Steps b K [] pre (atLine n) pre := by
  unfold atLine
  split
  · refine runs_of_same (fun s a s' hx => ?_) (fun s a s' H hx _ h hm => ?_) (fun s a s' hx u hm => ?_) fun _ _ _ _ _ f hf => by cases hf
    · cases hx
      obtain ⟨hc, hl, _⟩ := line_keeps s.code n
      exact ⟨hc, hl, rfl, .refl _, rfl⟩
    · cases hx
      obtain ⟨_, _, hh⟩ := line_keeps s.code n
      exact .inl (hh ▸ hm)
    · cases hx
      exact .inl hm
  · exact runs_pure _

/-- The entry of a need is there from now on. -/
theorem runs_pooled {need : Need} {g : Pool → Nat × Pool} (hg : Pool.Serves need g)
    (hu : ∀ p : Pool, (g p).2.children = p.children) :
    Runs b K [] pre (pooled g) fun i => ([.entry need i], pre) := by
  refine runs_of_same (fun s a s' hx => ?_) (fun s a s' H hx _ h hm => ?_) (fun s a s' hx u hm => ?_) fun s a s' H hx f hf => ?_
  · cases hx
    exact ⟨rfl, rfl, rfl, (hg s.pool).1, rfl⟩
  · cases hx
    exact .inl hm
  · cases hx
    exact .inl (hu s.pool ▸ hm)
  · cases hx
    cases List.mem_singleton.1 hf
    exact (hg s.pool).2

/-- A nested unit must be one that may be nested. -/
theorem runs_child {u : CompiledUnit} (hv : b.admits u) :
    Runs b K [] pre (child u) fun i => ([.entry (.child u) i], pre) := by
  refine runs_of_same (fun s a s' hx => ?_) (fun s a s' H hx _ h hm => ?_) (fun s a s' hx c hm => ?_) fun s a s' H hx f hf => ?_
  · cases hx
    exact ⟨rfl, rfl, rfl, (Pool.serves_child u s.pool).1, rfl⟩
  · cases hx
    exact .inl hm
  · cases hx
    rcases List.mem_cons.1 hm with rfl | hm
    · exact .inr hv
    · exact .inl hm
  · cases hx
    cases List.mem_singleton.1 hf
    exact (Pool.serves_child u s.pool).2

theorem runs_handler {h : Handler} (ho : .ordered h.start h.stop ∈ K) (ht : .height h.target (some 1) ∈ K) :
    Steps b K [] pre (handler h) pre := by
  refine runs_of_same (fun s a s' hx => ?_) (fun s a s' H hx hK h' hm => ?_) (fun s a s' hx u hm => ?_) fun _ _ _ _ _ f hf => by cases hf
  · cases hx
    exact ⟨rfl, rfl, rfl, .refl _, rfl⟩
  · cases hx
    rcases List.mem_append.1 hm with hm | hm
    · exact .inl hm
    · cases List.mem_singleton.1 hm
      exact .inr ⟨hK _ ho, hK _ ht⟩
  · cases hx
    exact .inl hm

/-! ## Labels -/

/-- A new label, for which a height is chosen. -/
theorem runs_newLabel (h : Option Nat) {f : Label → Emit β} {out : β → Outcome}
    (hf : ∀ l, l ∉ ms → Runs b (.height l h :: K) (l :: ms) pre (f l) out) : Runs b K ms pre (newLabel >>= f) out := by
  intro s c s' D H hx hs hK hm hc
  obtain ⟨l, s₁, h₁, h₂⟩ := bind_eq_ok hx
  cases h₁
  have hold : ∀ l', l' < s.code.labels.size → (s.code.labels.push none)[l']? = s.code.labels[l']? := by
    intro l' hl
    rw [Array.getElem?_push_lt hl, Array.getElem?_eq_getElem hl]
  have hlt : ∀ {l' : Nat} {o : Option Nat}, s.code.labels[l']? = some o → l' < s.code.labels.size :=
    fun h => (Array.getElem?_eq_some_iff.1 h).1
  have hnew : s.code.labels.size ∉ ms := fun hl => Nat.lt_irrefl _ (hlt (hm _ hl))
  let H₁ : Label → Option Nat := fun l => if l = s.code.labels.size then h else H l
  have hH : ∀ l', l' < s.code.labels.size → H₁ l' = H l' := fun l' hl => if_neg (Nat.ne_of_lt hl)
  -- the new label is open, and nothing yet speaks of it
  have hs₁ : Emission.Steady b D H₁ { s with code := { s.code with labels := s.code.labels.push none } } := by
    refine ⟨hs.fits, fun pc i hi l hl => ?_, fun pc i d hi hd => ?_, fun l pc hl => ?_, hs.ended, fun h' hm' => ?_, hs.units⟩
    · exact Nat.lt_of_lt_of_le (hs.known pc i hi l hl) (by simp)
    · obtain ⟨hp, hj, hfl⟩ := hs.flow pc i d hi hd
      refine ⟨hp, fun l hl => ?_, hfl⟩
      rw [hH l (hs.known pc i hi l hl)]
      exact hj l hl
    · by_cases hl' : l < s.code.labels.size
      · simp only [hold l hl'] at hl
        rw [hH l hl']
        exact hs.labels l pc hl
      · simp only [Array.getElem?_push] at hl
        split at hl
        · cases hl
        · exact absurd (hlt hl) hl'
    · obtain ⟨⟨pc, pc', hl, hl', hle⟩, ht, hh⟩ := hs.handlers h' hm'
      refine ⟨⟨pc, pc', ?_, ?_, hle⟩, Nat.lt_of_lt_of_le ht (by simp), (hH _ ht).trans hh⟩
      · simp only [hold _ (hlt hl), hl]
      · simp only [hold _ (hlt hl'), hl']
  have hK₁ : ∀ f ∈ .height s.code.labels.size h :: K,
      f.Holds H₁ { s with code := { s.code with labels := s.code.labels.push none } } := by
    intro f hf
    rcases List.mem_cons.1 hf with rfl | hf
    · exact ⟨by simp, if_pos rfl⟩
    · cases f with
      | height l d => exact ⟨Nat.lt_of_lt_of_le (hK _ hf).1 (by simp), (hH l (hK _ hf).1).trans (hK _ hf).2⟩
      | entry n i => exact hK _ hf
      | ordered l l' =>
        obtain ⟨pc, pc', hl, hl', hle⟩ := hK _ hf
        exact ⟨pc, pc', by simp only [hold _ (hlt hl), hl], by simp only [hold _ (hlt hl'), hl'], hle⟩
  have hopen : ∀ l ∈ s.code.labels.size :: ms, (s.code.labels.push none)[l]? = some none := by
    intro l hl
    rcases List.mem_cons.1 hl with rfl | hl
    · exact Array.getElem?_push_size
    · rw [hold l (hlt (hm l hl)), hm l hl]
  obtain ⟨D₂, H₂, hs₂, hc₂, hf₂, he⟩ := hf _ hnew _ c s' D H₁ h₂ hs₁ hK₁ hopen hc
  refine ⟨D₂, H₂, hs₂, hc₂, hf₂, ⟨Nat.le_trans (by simp) he.spares.size, fun l hl hn => ?_⟩, fun l hl => ?_, fun l hl => ?_, he.pool⟩
  · rw [he.spares.same l (Nat.lt_of_lt_of_le hl (by simp)) ?_]
    · exact hold l hl
    · rw [List.mem_cons, not_or]
      exact ⟨Nat.ne_of_lt hl, hn⟩
  · rw [he.heights l (Nat.lt_of_lt_of_le hl (by simp)), hH l hl]
  · obtain ⟨hlt', hn⟩ := he.bound l hl
    rw [List.mem_cons, not_or] at hn
    simp only [Array.size_push] at hlt'
    exact ⟨Nat.lt_of_le_of_ne (Nat.le_of_lt_succ hlt') hn.1, hn.2⟩

/-- A label is bound here.  It stands behind every label that is bound already; if it has a height, control
comes here with that depth. -/
theorem runs_mark {l : Label} {h : Option Nat} (hl : .height l h ∈ K) (hp : ∀ d, h = some d → pre = some d)
    (before : List Label) (hb : ∀ l' ∈ before, .ordered l' l' ∈ K) :
    Runs b K [l] pre (mark l) fun _ => (.ordered l l :: before.map (.ordered · l), pre) := by
  intro s a s' D H hx hs hK hm hc
  cases hx
  have ho := hm l List.mem_cons_self
  have hlt := (Array.getElem?_eq_some_iff.1 ho).1
  have hne : ∀ {l' pc : Nat}, s.code.labels[l']? = some (some pc) → l ≠ l' := by
    intro l' pc h' he
    rw [← he, ho] at h'
    cases h'
  have hold : ∀ {l' pc : Nat}, s.code.labels[l']? = some (some pc) →
      (s.code.labels.modify l fun _ => some s.code.code.size)[l']? = some (some pc) := by
    intro l' pc h'
    rw [Array.getElem?_modify, if_neg (hne h'), h']
  have hnew : (s.code.labels.modify l fun _ => some s.code.code.size)[l]? = some (some s.code.code.size) := by
    rw [Array.getElem?_modify, if_pos rfl, ho]
    rfl
  obtain ⟨_, hh⟩ := hK _ hl
  -- a place that control comes to by the label alone gets the depth of the label
  let D' : Nat → Option Nat := fun pc => if pc = s.size then (D pc).or h else D pc
  have hD : ∀ pc d, D pc = some d → D' pc = some d := by
    intro pc d hd
    simp only [D', hd, Option.some_or]
    split <;> rfl
  have hD' : ∀ pc, pc ≠ s.size → D' pc = D pc := fun pc hne => if_neg hne
  have hsize : ∀ d, h = some d → D' s.size = some d := by
    intro d hd
    have := hp d hd
    simp only [D', if_pos, hd]
    rcases hc with hc | hc
    · rw [hc, Option.none_or]
    · rw [hc, this, Option.some_or]
  refine ⟨D', H, ⟨hs.fits, fun pc i hi l' hl' => ?_, fun pc i d hi hd => ?_, fun l' pc hl' => ?_, fun he => ?_, fun h' hm' => ?_, hs.units⟩,
    ?_, fun f hf => ?_, ⟨⟨?_, fun l' _ hn => ?_⟩, fun _ _ => rfl, fun l' hl' => ?_, .refl _⟩⟩
  · simp only [Assembly.mark, Array.size_modify]
    exact hs.known pc i hi l' hl'
  · have hpc : pc ≠ s.size := Nat.ne_of_lt (Array.getElem?_eq_some_iff.1 hi).1
    rw [hD' pc hpc] at hd
    obtain ⟨hpop, hj, hfl⟩ := hs.flow pc i d hi hd
    exact ⟨hpop, hj, fun ht => hD _ _ (hfl ht)⟩
  · by_cases he : l = l'
    · subst he
      simp only [Assembly.mark, hnew, Option.some.injEq] at hl'
      subst hl'
      exact ⟨Nat.le_refl _, fun d hd => hsize d (hh.symm.trans hd)⟩
    · simp only [Assembly.mark, Array.getElem?_modify, if_neg he] at hl'
      obtain ⟨hle, hd⟩ := hs.labels l' pc hl'
      exact ⟨hle, fun d hd' => hD _ _ (hd d hd')⟩
  · simp [Emit.ended, Assembly.mark] at he
  · obtain ⟨⟨pc, pc', hl', hl'', hle⟩, ht, hh'⟩ := hs.handlers h' hm'
    exact ⟨⟨pc, pc', hold hl', hold hl'', hle⟩, by simpa only [Assembly.mark, Array.size_modify] using ht, hh'⟩
  · cases hh' : h with
    | some d => exact .inr ((hsize d hh').trans (hp d hh').symm)
    | none =>
      have : D' s.size = D s.size := by simp only [D', if_pos, hh', Option.or_none]
      exact hc.imp this.trans this.trans
  · simp only [List.mem_cons, List.mem_map] at hf
    obtain rfl | ⟨l', hl', rfl⟩ := hf
    · exact ⟨_, _, hnew, hnew, Nat.le_refl _⟩
    · obtain ⟨pc, _, hpc, _, _⟩ := hK _ (hb l' hl')
      exact ⟨pc, _, hold hpc, hnew, (hs.labels l' pc hpc).1⟩
  · simp only [Assembly.mark, Array.size_modify, Nat.le_refl]
  · have : l ≠ l' := fun he => hn (by rw [he]; exact List.mem_cons_self)
    simp only [Assembly.mark, Array.getElem?_modify, if_neg this]
  · by_cases he : l = l'
    · subst he
      simp only [Assembly.mark, hnew, Option.some.injEq, reduceCtorEq] at hl'
    · simp only [Assembly.mark, Array.getElem?_modify, if_neg he] at hl'
      exact ⟨(Array.getElem?_eq_some_iff.1 hl').1, fun hm' => he (List.mem_singleton.1 hm').symm⟩

/-! ## Instructions -/

theorem runs_op {i : Instr} (hi : ∀ p : Pool, (∀ n e, .entry n e ∈ K → p.Provides n e) → i.Fits b p) (hp : i.effect.1 ≤ d)
    (ht : ∀ l ∈ i.targets, .height l (some (d - i.effect.1 + i.effect.2)) ∈ K) :
    Steps b K [] (some d) (op i) (if i.isTerminal then none else some (d - i.effect.1 + i.effect.2)) := by
  intro s a s' D H hx hs hK _ hc
  cases hx
  let next : Option Nat := if i.isTerminal then none else (D s.size).map fun d => d - i.effect.1 + i.effect.2
  let D' : Nat → Option Nat := fun pc => if pc = s.size + 1 then next else D pc
  have hD : ∀ pc, pc ≤ s.size → D' pc = D pc := fun pc hle => if_neg (by omega)
  have hD' : D' (s.size + 1) = next := if_pos rfl
  have hsize : Emission.size { s with code := s.code.emit i } = s.size + 1 := Array.size_push ..
  have hcode : ∀ {pc : Nat} {j : Instr}, (s.code.code.push i)[pc]? = some j →
      s.code.code[pc]? = some j ∧ pc < s.size ∨ pc = s.size ∧ j = i := by
    intro pc j hj
    rw [Array.getElem?_push] at hj
    split at hj
    · rename_i he
      exact .inr ⟨he, (Option.some.inj hj).symm⟩
    · exact .inl ⟨hj, (Array.getElem?_eq_some_iff.1 hj).1⟩
  refine ⟨D', H, ⟨fun pc j hj => ?_, fun pc j hj l hl => ?_, fun pc j d' hj hd => ?_, fun l pc hl => ?_, fun he => ?_, hs.handlers, hs.units⟩,
    ?_, (fun f hf => by cases hf), ⟨Nat.le_refl _, fun _ _ _ => rfl⟩, fun _ _ => rfl, fun l hl => ⟨(Array.getElem?_eq_some_iff.1 hl).1, fun h => by cases h⟩, .refl _⟩
  · obtain ⟨hj, _⟩ | ⟨_, rfl⟩ := hcode hj
    · exact hs.fits pc j hj
    · exact hi s.pool fun n e he => hK _ he
  · obtain ⟨hj, _⟩ | ⟨_, rfl⟩ := hcode hj
    · exact hs.known pc j hj l hl
    · exact (hK _ (ht l hl)).1
  · obtain ⟨hj, hlt⟩ | ⟨rfl, rfl⟩ := hcode hj
    · rw [hD pc (Nat.le_of_lt hlt)] at hd
      obtain ⟨hpop, hjump, hfall⟩ := hs.flow pc j d' hj hd
      exact ⟨hpop, hjump, fun ht => (hD (pc + 1) hlt).trans (hfall ht)⟩
    · rw [hD _ (Nat.le_refl _)] at hd
      have hd' : d' = d := by
        rcases hc with hc | hc <;> rw [hc] at hd <;> cases hd
        rfl
      subst hd'
      refine ⟨hp, fun l hl => (hK _ (ht l hl)).2, fun hterm => ?_⟩
      rw [hD']
      simp only [next, hterm, hd, Option.map_some, Bool.false_eq_true, if_false]
  · obtain ⟨hle, hh⟩ := hs.labels l pc hl
    exact ⟨hsize ▸ Nat.le_succ_of_le hle, fun h hh' => (hD pc hle).trans (hh h hh')⟩
  · have hterm : i.isTerminal = true := by
      simp only [Emit.ended, Assembly.emit, Array.back?_push, Option.map_some, Option.getD_some, Bool.and_eq_true] at he
      exact he.2
    rw [hsize, hD']
    exact if_pos hterm
  · rw [Comes, hsize, hD']
    simp only [next]
    rcases hc with hc | hc
    · exact .inl (by rw [hc]; split <;> rfl)
    · exact .inr (by rw [hc]; rfl)

/-- An instruction that goes on to the next one. -/
theorem runs_instr {i : Instr} (d pops pushes : Nat) (he : i.effect = (pops, pushes)) (hn : i.isTerminal = false)
    (ht : ∀ l ∈ i.targets, .height l (some (d + pushes)) ∈ K)
    (hi : ∀ p : Pool, (∀ n e, .entry n e ∈ K → p.Provides n e) → i.Fits b p) :
    Steps b K [] (some (d + pops)) (op i) (some (d + pushes)) := by
  have hd : d + pops - i.effect.1 + i.effect.2 = d + pushes := by
    rw [he]
    simp only [Nat.add_sub_cancel]
  have h := runs_op (d := d + pops) hi (by rw [he]; exact Nat.le_add_left _ _) (by rw [hd]; exact ht)
  rwa [hn, if_neg Bool.false_ne_true, hd] at h

theorem runs_plain {i : Instr} (d pops pushes : Nat) (he : i.effect = (pops, pushes)) (hp : i.isPlain = true) :
    Steps b K [] (some (d + pops)) (op i) (some (d + pushes)) := by
  refine runs_instr d pops pushes he (Instr.isPlain_spec (b := b) (p := {}) hp).1 (fun l hl => ?_) fun p _ => (Instr.isPlain_spec hp).2.2
  rw [(Instr.isPlain_spec (b := b) (p := {}) hp).2.1] at hl
  cases hl

theorem runs_load {slot : Nat} (h : slot < b.slots) (d : Nat) : Steps b K [] (some d) (op (.load slot)) (some (d + 1)) :=
  runs_instr d 0 1 rfl rfl (fun _ h => by cases h) fun _ _ =>
    Instr.fits_of_slot rfl (fun _ => rfl) (fun _ _ => Instr.noConfusion) h

theorem runs_store {slot : Nat} (h : slot < b.slots) (d : Nat) : Steps b K [] (some (d + 1)) (op (.store slot)) (some d) :=
  runs_instr d 1 0 rfl rfl (fun _ h => by cases h) fun _ _ =>
    Instr.fits_of_slot rfl (fun _ => rfl) (fun _ _ => Instr.noConfusion) h

theorem runs_jump {l : Label} {d : Nat} (hl : .height l (some d) ∈ K) : Steps b K [] (some d) (op (.jump l)) none :=
  runs_op (fun _ _ => Instr.fits_of_none rfl (fun _ => rfl) fun _ _ => Instr.noConfusion) (Nat.zero_le d)
    fun l' h => by rw [List.mem_singleton.1 h]; exact hl

theorem runs_raise (d : Nat) : Steps b K [] (some (d + 1)) (op .throw) none :=
  runs_op (fun _ _ => Instr.fits_of_none rfl (fun _ => rfl) fun _ _ => Instr.noConfusion) (Nat.le_add_left 1 d)
    fun _ h => by cases h

theorem runs_forM {f : α → Emit PUnit} {as : List α} (hf : ∀ a ∈ as, Steps b K [] pre (f a) pre) :
    Steps b K [] pre (as.forM f) pre := by
  induction as with
  | nil =>
    rw [List.forM_eq_forM, List.forM_nil]
    exact runs_pure _
  | cons a as ih =>
    rw [List.forM_eq_forM, List.forM_cons]
    exact runs_then (hf a List.mem_cons_self) (ih fun a ha => hf a (List.mem_cons_of_mem _ ha))

/-! ## Labels of arms -/

theorem Steps.forgetting {out : α → Outcome} (h : Runs b K ms pre x out) (hp : ∀ a, (out a).2 = post) :
    Steps b K ms pre x post := by
  intro s a s' D H hx hs hf hm hc
  obtain ⟨D', H', hs', hc', _, he⟩ := h s a s' D H hx hs hf hm hc
  exact ⟨D', H', hs', hp a ▸ hc', (fun f hf => by cases hf), he⟩

theorem runs_markAt {l : Label} {h : Option Nat} (hl : .height l h ∈ K) : Steps b K [l] h (mark l) h :=
  Steps.forgetting (runs_mark hl (fun _ he => he) [] fun _ h => by cases h) fun _ => rfl

theorem runs_mark_then {l : Label} {h : Option Nat} {z : Emit β} {out : β → Outcome} (hl : .height l h ∈ K) (hn : l ∉ ms)
    (hz : Runs b K ms h z out) : Runs b K (l :: ms) h (mark l >>= fun _ => z) out :=
  runs_bind (runs_markAt hl) (fun _ => hz) fun _ hl' he => hn (List.mem_singleton.1 he ▸ hl')

/-- Code that only a jump to its label leads to. -/
theorem runs_join {l : Label} (h : Option Nat) {z : Emit β} {out : β → Outcome} (hl : .height l h ∈ K) (hn : l ∉ ms)
    (hz : Runs b K ms h z out) : Runs b K (l :: ms) none (mark l >>= fun _ => z) out := (runs_mark_then hl hn hz).dead

end

end Emit

end LispMachine
