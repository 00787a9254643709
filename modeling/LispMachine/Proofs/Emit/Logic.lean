import LispMachine.Emit.Unit
/-!
# Reasoning about emission

Emission only ever adds: instructions at the end, labels, entries of the tables, handlers.  So what it
has laid down at some moment is found again in the finished method (`Emission.In`), and a statement about
emitted code can be one about the finished method: `Emits x R` says that the code of `x` stands between
two places of any method that it ends up in, and that these places are as `R` says.

`R` speaks of the method and the tables (`Image`), of the entry that was found for each need, of the
range of the code and of the handlers that were added.  The rules for `Emits` follow the text of an
emission.
-/
namespace LispMachine

/-! ## Tables -/

/-- What code asks of the tables of its unit. -/
inductive Need where
  | constant (c : Constant)
  | keyword (k : Keyword)
  | protocol (method : Symbol)
  | child (u : CompiledUnit)

namespace Pool

/-- The entry is one that serves the need. -/
def Provides (p : Pool) : Need → Nat → Prop
  | .constant c, i => ∃ c', p.constants[i]? = some c' ∧ (c' = c ∨ Constant.same c' c = true)
  | .keyword k, i => p.keywordSites[i]? = some k
  | .protocol m, i => p.protocolSites[i]? = some m
  | .child u, i => p.children.reverse[i]? = some u

/-- The second pool has the entries of the first at the same places. -/
structure In (p q : Pool) : Prop where
  constants : ∀ (i : Nat) (c : Constant), p.constants[i]? = some c → q.constants[i]? = some c
  keywordSites : ∀ (i : Nat) (k : Keyword), p.keywordSites[i]? = some k → q.keywordSites[i]? = some k
  protocolSites : ∀ (i : Nat) (m : Symbol), p.protocolSites[i]? = some m → q.protocolSites[i]? = some m
  children : ∀ (i : Nat) (u : CompiledUnit), p.children.reverse[i]? = some u → q.children.reverse[i]? = some u

variable {p q r : Pool}

theorem In.refl (p : Pool) : In p p := ⟨fun _ _ h => h, fun _ _ h => h, fun _ _ h => h, fun _ _ h => h⟩

theorem In.trans (h : In p q) (h' : In q r) : In p r :=
  ⟨fun i c hi => h'.constants i c (h.constants i c hi), fun i k hi => h'.keywordSites i k (h.keywordSites i k hi),
    fun i m hi => h'.protocolSites i m (h.protocolSites i m hi), fun i u hi => h'.children i u (h.children i u hi)⟩

theorem In.provides (h : In p q) {n : Need} {i : Nat} (hp : p.Provides n i) : q.Provides n i := by
  cases n with
  | constant c =>
    obtain ⟨c', hc, hs⟩ := hp
    exact ⟨c', h.constants i c' hc, hs⟩
  | keyword k => exact h.keywordSites i k hp
  | protocol m => exact h.protocolSites i m hp
  | child u => exact h.children i u hp

theorem getElem?_push_of_some {α : Type} {xs : Array α} {i : Nat} {a : α} (x : α) (h : xs[i]? = some a) :
    (xs.push x)[i]? = some a := by
  obtain ⟨hlt, he⟩ := Array.getElem?_eq_some_iff.1 h
  rw [Array.getElem?_push_lt hlt, he]

/-- A request finds an entry that serves it, or adds one. -/
def Serves (need : Need) (f : Pool → Nat × Pool) : Prop := ∀ p, In p (f p).2 ∧ (f p).2.Provides need (f p).1

theorem serves_constant (c : Constant) : Serves (.constant c) (·.constant c) := by
  intro p
  simp only [Pool.constant]
  split
  · rename_i i hi
    obtain ⟨hlt, hs, _⟩ := Array.findIdx?_eq_some_iff_getElem.1 hi
    exact ⟨.refl p, p.constants[i], Array.getElem?_eq_getElem hlt, .inr hs⟩
  · refine ⟨⟨fun i c' h => getElem?_push_of_some c h, fun _ _ h => h, fun _ _ h => h, fun _ _ h => h⟩, c, ?_, .inl rfl⟩
    simp

theorem serves_form (f : Form) : Serves (.constant (.form (f.withInfo none))) (·.form f) :=
  serves_constant (.form (f.withInfo none))

theorem serves_keywordSite (k : Keyword) : Serves (.keyword k) (·.keywordSite k) := by
  intro p
  simp only [Pool.keywordSite]
  split
  · rename_i i hi
    obtain ⟨hlt, hs, _⟩ := Array.findIdx?_eq_some_iff_getElem.1 hi
    refine ⟨.refl p, ?_⟩
    simp only [Provides, Array.getElem?_eq_getElem hlt, eq_of_beq hs]
  · refine ⟨⟨fun _ _ h => h, fun i k' h => getElem?_push_of_some k h, fun _ _ h => h, fun _ _ h => h⟩, ?_⟩
    simp [Provides]

theorem serves_protocolSite (m : Symbol) : Serves (.protocol m) (·.protocolSite m) := by
  intro p
  simp only [Pool.protocolSite]
  split
  · rename_i i hi
    obtain ⟨hlt, hs, _⟩ := Array.findIdx?_eq_some_iff_getElem.1 hi
    refine ⟨.refl p, ?_⟩
    simp only [Provides, Array.getElem?_eq_getElem hlt, eq_of_beq hs]
  · refine ⟨⟨fun _ _ h => h, fun _ _ h => h, fun i m' h => getElem?_push_of_some m h, fun _ _ h => h⟩, ?_⟩
    simp [Provides]

theorem serves_child (u : CompiledUnit) : Serves (.child u) (·.child u) := by
  intro p
  refine ⟨⟨fun _ _ h => h, fun _ _ h => h, fun _ _ h => h, fun i u' h => ?_⟩, ?_⟩
  · have hlt := (List.getElem?_eq_some_iff.1 h).1
    show (u :: p.children).reverse[i]? = some u'
    rw [List.reverse_cons, List.getElem?_append_left hlt]
    exact h
  · simp [Pool.child, Provides]

end Pool

/-! ## Finished methods -/

/-- A finished method, and the tables that the methods of its unit share. -/
structure Image where
  method : Method
  pool : Pool

namespace Emission

/-- How many instructions there are so far. -/
def size (s : Emission) : Nat := s.code.code.size

/-- What the first emission has is also in the second, at the same places. -/
structure Precedes (s s' : Emission) : Prop where
  code : ∀ (pc : Nat) (i : Instr), s.code.code[pc]? = some i → s'.code.code[pc]? = some i
  labels : ∀ (l pc : Nat), s.code.labels[l]? = some (some pc) → s'.code.labels[l]? = some (some pc)
  pool : s.pool.In s'.pool

/-- What is emitted so far is in the finished method. -/
structure In (s : Emission) (i : Image) : Prop where
  code : ∀ (pc : Nat) (j : Instr), s.code.code[pc]? = some j → i.method.code[pc]? = some j
  labels : ∀ (l pc : Nat), s.code.labels[l]? = some (some pc) → i.method.labelPc? l = some pc
  pool : s.pool.In i.pool

variable {s s' s'' : Emission} {i : Image}

theorem Precedes.refl (s : Emission) : Precedes s s := ⟨fun _ _ h => h, fun _ _ h => h, .refl _⟩

theorem Precedes.trans (h : Precedes s s') (h' : Precedes s' s'') : Precedes s s'' :=
  ⟨fun pc i hi => h'.code pc i (h.code pc i hi), fun l pc hl => h'.labels l pc (h.labels l pc hl),
    h.pool.trans h'.pool⟩

theorem Precedes.installed (h : Precedes s s') (hi : s'.In i) : s.In i :=
  ⟨fun pc j hj => hi.code pc j (h.code pc j hj), fun l pc hl => hi.labels l pc (h.labels l pc hl),
    h.pool.trans hi.pool⟩

/-- The labels that were there and are not named are left alone. -/
structure Spares (s s' : Emission) (marks : List Label) : Prop where
  size : s.code.labels.size ≤ s'.code.labels.size
  same : ∀ l, l < s.code.labels.size → l ∉ marks → s'.code.labels[l]? = s.code.labels[l]?

theorem Spares.refl (s : Emission) (marks : List Label) : Spares s s marks := ⟨Nat.le_refl _, fun _ _ _ => rfl⟩

theorem Spares.trans {ms ms' : List Label} (h : Spares s s' ms) (h' : Spares s' s'' ms') :
    Spares s s'' (ms ++ ms') := by
  refine ⟨Nat.le_trans h.size h'.size, fun l hl hn => ?_⟩
  rw [List.mem_append, not_or] at hn
  rw [h'.same l (Nat.lt_of_lt_of_le hl h.size) hn.2, h.same l hl hn.1]

end Emission

namespace Emit

variable {α β : Type}

/-- A statement about a piece of code: in which method it stands, which entry each need has got, counted
from the given one, between which places it stands and which handlers it adds. -/
abbrev Region := Image → (Nat → Nat) → Nat → Nat → Nat → List Handler → Prop

/-- A statement about the code of an emission that has a result. -/
abbrev Layout (α : Type) := α → Region

/-- The numbering gives the needs from `k` on these entries. -/
def Numbers (entryOf : Nat → Nat) (k : Nat) (entries : List (Option Nat)) : Prop :=
  ∀ (j e : Nat), entries[j]? = some (some e) → entryOf (k + j) = e

/-- Wherever the emission succeeds, its code is as the layout says.  It binds the labels `marks`, which
must be open, and asks for the needs in order. -/
def Emits (marks : List Label) (needs : List Need) (x : Emit α) (R : Layout α) : Prop :=
  ∀ (s : Emission) (a : α) (s' : Emission), x s = .ok (a, s') → (∀ l ∈ marks, s.code.labels[l]? = some none) →
    s.Precedes s' ∧ s.Spares s' marks ∧
    ∃ (entries : List (Option Nat)) (handlers : List Handler), entries.length = needs.length ∧
      s'.code.handlers = s.code.handlers ++ handlers ∧ ∀ i : Image, s'.In i → ∀ (entryOf : Nat → Nat) (k : Nat),
        Numbers entryOf k entries → R a i entryOf k s.size s'.size handlers

theorem Numbers.left {entryOf : Nat → Nat} {k : Nat} {es fs : List (Option Nat)} (h : Numbers entryOf k (es ++ fs)) :
    Numbers entryOf k es := by
  intro j e hj
  refine h j e ?_
  rw [List.getElem?_append_left (List.getElem?_eq_some_iff.1 hj).1]
  exact hj

theorem Numbers.right {entryOf : Nat → Nat} {k : Nat} {es fs : List (Option Nat)} (h : Numbers entryOf k (es ++ fs)) :
    Numbers entryOf (k + es.length) fs := by
  intro j e hj
  rw [Nat.add_assoc]
  refine h (es.length + j) e ?_
  rw [List.getElem?_append_right (Nat.le_add_right _ _), Nat.add_sub_cancel_left]
  exact hj

/-! ## Rules -/

theorem Emits.mono {marks : List Label} {needs : List Need} {x : Emit α} {R R' : Layout α} (h : Emits marks needs x R)
    (hR : ∀ a i e k pc pc' hs, R a i e k pc pc' hs → R' a i e k pc pc' hs) : Emits marks needs x R' := by
  intro s a s' hx hm
  obtain ⟨hp, hs, entries, handlers, hl, hh, hi⟩ := h s a s' hx hm
  exact ⟨hp, hs, entries, handlers, hl, hh, fun i hin e k hn => hR _ _ _ _ _ _ _ (hi i hin e k hn)⟩

theorem emits_marking (ms : List Label) {ms' : List Label} {needs : List Need} {x : Emit α} {R : Layout α}
    (h : Emits ms needs x R)
    (hsub : ∀ l ∈ ms, l ∈ ms') : Emits ms' needs x R := by
  intro s a s' hx hm
  obtain ⟨hp, hs, rest⟩ := h s a s' hx fun l hl => hm l (hsub l hl)
  exact ⟨hp, ⟨hs.size, fun l hl hn => hs.same l hl fun hl' => hn (hsub l hl')⟩, rest⟩

/-- Needs that are not asked for. -/
theorem Emits.skipping {ms : List Label} {x : Emit α} {R : Layout α} (h : Emits ms [] x R) (needs : List Need) :
    Emits ms needs x R := by
  intro s a s' hx hm
  obtain ⟨hp, hs, entries, handlers, hl, hh, hi⟩ := h s a s' hx hm
  refine ⟨hp, hs, List.replicate needs.length none, handlers, by simp, hh, fun i hin e k _ => ?_⟩
  refine hi i hin e k fun j f hf => ?_
  rw [List.eq_nil_of_length_eq_zero hl] at hf
  simp at hf

theorem emits_pure (a : α) : Emits [] [] (pure a : Emit α) fun b _ _ _ pc pc' hs => b = a ∧ pc' = pc ∧ hs = [] := by
  intro s b s' hx _
  cases hx
  exact ⟨.refl s, .refl s _, [], [], rfl, (List.append_nil _).symm, fun _ _ _ _ _ => ⟨rfl, rfl, rfl⟩⟩

theorem emits_throw (f : CompileFault) (marks : List Label) (needs : List Need) (R : Layout α) :
    Emits marks needs (throw f : Emit α) R := fun s a s' hx _ => by cases hx

theorem bind_eq_ok {x : Emit α} {f : α → Emit β} {s s' : Emission} {b : β} (h : (x >>= f) s = .ok (b, s')) :
    ∃ a s₁, x s = .ok (a, s₁) ∧ f a s₁ = .ok (b, s') := by
  change Except.bind (x s) (fun r => f r.1 r.2) = .ok (b, s') at h
  cases hx : x s with
  | error e =>
    rw [hx] at h
    cases h
  | ok r =>
    rw [hx] at h
    exact ⟨r.1, r.2, rfl, h⟩

/-- One emission after the other; the second binds no label that the first binds. -/
theorem emits_bind {ms ms' : List Label} {ns ns' : List Need} {x : Emit α} {f : α → Emit β} {R : Layout α}
    {R' : α → Layout β} (hx : Emits ms ns x R) (hf : ∀ a, Emits ms' ns' (f a) (R' a)) (hd : ∀ l ∈ ms', l ∉ ms) :
    Emits (ms ++ ms') (ns ++ ns') (x >>= f) fun b i e k pc pc' hs => ∃ a p hs₁ hs₂, hs = hs₁ ++ hs₂ ∧
      R a i e k pc p hs₁ ∧ R' a b i e (k + ns.length) p pc' hs₂ := by
  intro s b s' h hm
  obtain ⟨a, s₁, h₁, h₂⟩ := bind_eq_ok h
  obtain ⟨hp, hs, es, hs₁, hl, hh, hi⟩ := hx s a s₁ h₁ fun l hl => hm l (List.mem_append_left _ hl)
  have hopen : ∀ l ∈ ms', s₁.code.labels[l]? = some none := by
    intro l hl
    have ho := hm l (List.mem_append_right _ hl)
    rw [hs.same l (Array.getElem?_eq_some_iff.1 ho).1 (hd l hl)]
    exact ho
  obtain ⟨hp', hs', es', hs₂, hl', hh', hi'⟩ := hf a s₁ b s' h₂ hopen
  refine ⟨hp.trans hp', hs.trans hs', es ++ es', hs₁ ++ hs₂, ?_, ?_, fun i hin e k hn => ?_⟩
  · rw [List.length_append, List.length_append, hl, hl']
  · rw [hh', hh, List.append_assoc]
  · refine ⟨a, s₁.size, hs₁, hs₂, rfl, hi i (hp'.installed hin) e k hn.left, ?_⟩
    have := hi' i hin e _ hn.right
    rwa [hl] at this

/-- One emission after the other, neither of which binds a label from outside. -/
theorem emits_seq {ns ns' : List Need} {x : Emit α} {f : α → Emit β} {R : Layout α} {R' : α → Layout β}
    (hx : Emits [] ns x R) (hf : ∀ a, Emits [] ns' (f a) (R' a)) :
    Emits [] (ns ++ ns') (x >>= f) fun b i e k pc pc' hs => ∃ a p hs₁ hs₂, hs = hs₁ ++ hs₂ ∧
      R a i e k pc p hs₁ ∧ R' a b i e (k + ns.length) p pc' hs₂ :=
  emits_bind hx hf fun _ h => by cases h

/-- An emission that changes nothing but what the rules keep an eye on. -/
theorem emits_of_state {x : Emit α} {R : Layout α} (h : ∀ s a s', x s = .ok (a, s') →
    s.Precedes s' ∧ s.Spares s' [] ∧ s'.code.handlers = s.code.handlers ∧
    ∀ i : Image, s'.In i → ∀ e k, R a i e k s.size s'.size []) : Emits [] [] x R := by
  intro s a s' hx _
  obtain ⟨hp, hs, hh, hi⟩ := h s a s' hx
  exact ⟨hp, hs, [], [], rfl, by rw [hh, List.append_nil], fun i hin e k _ => hi i hin e k⟩

theorem emits_op (j : Instr) : Emits [] [] (op j) fun _ i _ _ pc pc' hs =>
    i.method.code[pc]? = some j ∧ pc' = pc + 1 ∧ hs = [] := by
  refine emits_of_state fun s a s' hx => ?_
  cases hx
  refine ⟨⟨fun pc i h => Pool.getElem?_push_of_some j h, fun _ _ h => h, .refl _⟩, ⟨Nat.le_refl _, fun _ _ _ => rfl⟩, rfl, fun i hin e k => ?_⟩
  refine ⟨hin.code _ _ ?_, ?_, rfl⟩
  · simp only [Assembly.emit, Emission.size, Array.getElem?_push_size]
  · simp only [Assembly.emit, Emission.size, Array.size_push]

theorem line_keeps (a : Assembly) (n : Nat) :
    (a.line n).code = a.code ∧ (a.line n).labels = a.labels ∧ (a.line n).handlers = a.handlers := by
  unfold Assembly.line
  dsimp only
  split
  · split
    · exact ⟨rfl, rfl, rfl⟩
    · split <;> exact ⟨rfl, rfl, rfl⟩
  · exact ⟨rfl, rfl, rfl⟩

theorem emits_atLine (n : Nat) : Emits [] [] (atLine n) fun _ _ _ _ pc pc' hs => pc' = pc ∧ hs = [] := by
  unfold atLine
  split
  · refine emits_of_state fun s a s' hx => ?_
    cases hx
    obtain ⟨hc, hl, hh⟩ := line_keeps s.code n
    refine ⟨⟨fun pc i h => ?_, fun l pc h => ?_, .refl _⟩, ⟨Nat.le_of_eq ?_, fun l _ _ => ?_⟩, hh, fun i _ e k => ?_⟩
    · simpa only [hc] using h
    · simpa only [hl] using h
    · simp only [hl]
    · simp only [hl]
    · exact ⟨by simp only [Emission.size, hc], rfl⟩
  · exact (emits_pure _).mono fun _ _ _ _ _ _ _ h => h.2

theorem emits_pooled {need : Need} {f : Pool → Nat × Pool} (hf : Pool.Serves need f) :
    Emits [] [need] (pooled f) fun a i e k pc pc' hs => a = e k ∧ i.pool.Provides need a ∧ pc' = pc ∧ hs = [] := by
  intro s a s' hx _
  cases hx
  obtain ⟨hp, hn⟩ := hf s.pool
  refine ⟨⟨fun _ _ h => h, fun _ _ h => h, hp⟩, ⟨Nat.le_refl _, fun _ _ _ => rfl⟩, [some (f s.pool).1], [], rfl,
    (List.append_nil _).symm, fun i hin e k hk => ?_⟩
  exact ⟨(hk 0 _ rfl).symm, hin.pool.provides hn, rfl, rfl⟩

theorem emits_handler (h : Handler) : Emits [] [] (handler h) fun _ _ _ _ pc pc' hs => pc' = pc ∧ hs = [h] := by
  intro s a s' hx _
  cases hx
  exact ⟨⟨fun _ _ h => h, fun _ _ h => h, .refl _⟩, ⟨Nat.le_refl _, fun _ _ _ => rfl⟩, [], [h], rfl, rfl,
    fun _ _ _ _ _ => ⟨rfl, rfl⟩⟩

/-- Binding an open label. -/
theorem emits_mark (l : Label) : Emits [l] [] (mark l) fun _ i _ _ pc pc' hs =>
    i.method.labelPc? l = some pc ∧ pc' = pc ∧ hs = [] := by
  intro s a s' hx hm
  cases hx
  have ho := hm l List.mem_cons_self
  have hne : ∀ l' pc, s.code.labels[l']? = some (some pc) → l ≠ l' := by
    intro l' pc h he
    rw [← he, ho] at h
    cases h
  refine ⟨⟨fun _ _ h => h, fun l' pc h => ?_, .refl _⟩, ⟨?_, fun l' _ hn => ?_⟩, [], [], rfl, (List.append_nil _).symm,
    fun i hin _ _ _ => ⟨hin.labels l _ ?_, rfl, rfl⟩⟩
  · simp only [Assembly.mark, Array.getElem?_modify, if_neg (hne l' pc h), h]
  · simp only [Assembly.mark, Array.size_modify, Nat.le_refl]
  · have : l ≠ l' := fun he => hn (by rw [he]; exact List.mem_cons_self)
    simp only [Assembly.mark, Array.getElem?_modify, if_neg this]
  · simp only [Assembly.mark, Array.getElem?_modify, if_true, ho, Option.map_some, Emission.size]

/-- A new label is open, and bound by what follows. -/
theorem emits_newLabel {marks : List Label} {ns : List Need} {f : Label → Emit β} {R : Label → Layout β}
    (hf : ∀ l, l ∉ marks → Emits (l :: marks) ns (f l) (R l)) : Emits marks ns (newLabel >>= f)
      fun b i e k pc pc' hs => ∃ l, R l b i e k pc pc' hs := by
  intro s b s' h hm
  obtain ⟨l, s₁, h₁, h₂⟩ := bind_eq_ok h
  cases h₁
  have hold : ∀ l', l' < s.code.labels.size →
      (s.code.labels.push none)[l']? = s.code.labels[l']? := by
    intro l' hl
    rw [Array.getElem?_push_lt hl, Array.getElem?_eq_getElem hl]
  have hnew : s.code.labels.size ∉ marks := by
    intro hl
    exact Nat.lt_irrefl _ (Array.getElem?_eq_some_iff.1 (hm _ hl)).1
  obtain ⟨hp, hs, es, hs', hn, hh, hi⟩ := hf _ hnew _ b s' h₂ (by
    intro l' hl
    cases hl with
    | head => simp only [Array.getElem?_push_size]
    | tail _ hl =>
      have ho := hm l' hl
      simp only [hold l' (Array.getElem?_eq_some_iff.1 ho).1, ho])
  refine ⟨⟨fun pc i h => hp.code pc i h, fun l' pc h => hp.labels l' pc ?_, hp.pool⟩, ⟨?_, fun l' hl hn => ?_⟩, es, hs', hn, hh,
    fun i hin e k hk => ⟨_, hi i hin e k hk⟩⟩
  · simp only [hold l' (Array.getElem?_eq_some_iff.1 h).1, h]
  · have := hs.size
    simp only [Array.size_push] at this
    omega
  · have hn' : l' ∉ s.code.labels.size :: marks := by
      rw [List.mem_cons, not_or]
      exact ⟨by omega, hn⟩
    have := hs.same l' (by simp only [Array.size_push]; omega) hn'
    simp only [hold l' hl] at this
    exact this

end Emit

end LispMachine
