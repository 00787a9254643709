import LispMachine.Proofs.Analyze.Guards
/-!
# Slots in use

A slot is in use as long as a local of the method that has it is visible, or as long as a `try` of the method that keeps its
result or its exception there is being analyzed; `Held` tells the slots of the latter.  In a context that is `Spaced` the slots
in use are apart and below the next one.

Two analyses that differ only in what they do from a context that is not spaced are compared by one judgement (`Spaces`): from
one that is, they do the same, and however they end, the context is spaced again.  An analysis that is `still` comes back to
the same scope as well.
-/
namespace LispMachine

/-- What the current method holds besides its visible locals. -/
structure Held where
  /-- The slots for the results and the exceptions of the `try` forms around, the innermost first. -/
  tries : List Nat := []
  /-- The names that the method's object may have. -/
  selves : List Symbol := []

/-- What a scope tells about slots. -/
def Scope.layout (s : Scope) : Option Nat × Nat × List (Symbol × Nat) := (s.method, s.nextSlot, s.env)

namespace Context

/-- The visible locals of a method, the innermost first. -/
def localsOf (c : Context) (m : Nat) : List (Symbol × Nat) := c.scope.env.filter fun e => (c.binding e.2).method == some m

/-- The slots of a method that are in use. -/
def inUse (c : Context) (g : Held) (m : Nat) : List Nat := (c.localsOf m).map (fun e => (c.binding e.2).slot) ++ g.tries

/-- The slots in use are apart, and slot zero is that of the object. -/
structure Apart (c : Context) (g : Held) (m : Nat) : Prop where
  distinct : (c.inUse g m).Nodup
  below : ∀ slot ∈ c.inUse g m, slot < c.scope.nextSlot
  top : c.scope.nextSlot ≤ (c.method m).maxSlot + 1
  /-- Only the first local of a method can have slot zero, under one of the names of the object. -/
  self : ∀ e ∈ c.localsOf m, (c.binding e.2).slot = 0 → (c.localsOf m).getLast? = some e ∧ e.1 ∈ g.selves
  tries : 0 ∉ g.tries

/-- The visible locals are there, and in the current method the slots in use are apart. -/
structure Spaced (c : Context) (g : Held) : Prop where
  known : ∀ e ∈ c.scope.env, e.2 < c.bindings.size
  owner : ∀ e ∈ c.scope.env, ∀ m, (c.binding e.2).method = some m → m < c.methods.size
  current : ∀ m, c.scope.method = some m → m < c.methods.size ∧ 0 < c.scope.nextSlot ∧ c.Apart g m

/-- Locals keep their slots and their methods, and methods the slots that they have handed out. -/
structure Retains (c c' : Context) : Prop where
  size : c.bindings.size ≤ c'.bindings.size
  slot : ∀ x < c.bindings.size, (c'.binding x).slot = (c.binding x).slot
  owner : ∀ x < c.bindings.size, (c'.binding x).method = (c.binding x).method
  methods : c.methods.size ≤ c'.methods.size
  maxSlot : ∀ m, (c.method m).maxSlot ≤ (c'.method m).maxSlot

/-- A method that has just been entered: none of the visible locals belongs to it. -/
structure Entered (c : Context) : Prop where
  spaced : c.Spaced {}
  bare : ∀ m, c.scope.method = some m → c.localsOf m = []

variable {c c' c'' : Context} {g h : Held} {m x : Nat} {b : Binding}

theorem Retains.refl (c : Context) : c.Retains c :=
  ⟨Nat.le_refl _, fun _ _ => rfl, fun _ _ => rfl, Nat.le_refl _, fun _ => Nat.le_refl _⟩

theorem Retains.trans (h : c.Retains c') (h' : c'.Retains c'') : c.Retains c'' :=
  ⟨Nat.le_trans h.size h'.size, fun x hx => (h'.slot x (Nat.lt_of_lt_of_le hx h.size)).trans (h.slot x hx),
    fun x hx => (h'.owner x (Nat.lt_of_lt_of_le hx h.size)).trans (h.owner x hx), Nat.le_trans h.methods h'.methods,
    fun m => Nat.le_trans (h.maxSlot m) (h'.maxSlot m)⟩

/-- Neither locals nor methods are touched. -/
theorem retains_of_eq (hb : c'.bindings = c.bindings) (hm : c'.methods = c.methods) : c.Retains c' := by
  have hbinding : ∀ x, c'.binding x = c.binding x := fun x => by rw [binding, hb, binding]
  refine ⟨Nat.le_of_eq (by rw [hb]), fun x _ => by rw [hbinding], fun x _ => by rw [hbinding], Nat.le_of_eq (by rw [hm]), fun m => ?_⟩
  exact Nat.le_of_eq (by rw [method, method, hm])

theorem retains_modifyBinding (c : Context) (id : Nat) {f : Binding → Binding} (hs : ∀ b, (f b).slot = b.slot)
    (ho : ∀ b, (f b).method = b.method) : c.Retains (c.modifyBinding id f) := by
  refine ⟨Nat.le_of_eq Array.size_modify.symm, fun x _ => ?_, fun x _ => ?_, Nat.le_refl _, fun _ => Nat.le_refl _⟩
  all_goals
    rw [binding_modify]
    split
  · exact hs _
  · rfl
  · exact ho _
  · rfl

theorem retains_capture (c : Context) (obj x : Nat) : c.Retains (c.capture obj x) := retains_of_eq rfl rfl

theorem retains_modifyScope (c : Context) (r : Scope → Scope) : c.Retains (c.modifyScope r) := retains_of_eq rfl rfl

/-- Where a form is in the text has nothing to do with slots. -/
theorem retains_moveTo (c : Context) (f : Form) : c.Retains (c.moveTo f) ∧ (c.moveTo f).scope.layout = c.scope.layout := by
  unfold moveTo
  split
  · exact ⟨retains_modifyScope c _, rfl⟩
  · exact ⟨.refl c, rfl⟩

theorem retains_captureFrom (x : Nat) : ∀ (fuel m : Nat) (c : Context), c.Retains (captureFrom x fuel m c)
  | 0, _, c => .refl c
  | fuel + 1, m, c => by
    rw [captureFrom]
    split
    · split
      · exact retains_modifyBinding c x (fun _ => rfl) fun _ => rfl
      · exact .refl c
    · have hc := retains_capture c (c.method m).obj x
      dsimp only
      split
      · exact hc.trans (retains_captureFrom x fuel _ _)
      · exact hc

theorem retains_closeOver (c : Context) (x : Nat) : c.Retains (c.closeOver x) := by
  unfold closeOver
  split
  · exact retains_captureFrom x _ _ c
  · exact .refl c

theorem retains_referenceLocal (c : Context) (x : Nat) (tag : Option String) : c.Retains (c.referenceLocal x tag).2 := by
  refine (retains_closeOver c x).trans ?_
  unfold referenceLocal
  dsimp only
  split
  · split <;> exact retains_of_eq rfl rfl
  · exact retains_of_eq rfl rfl

theorem method_push (c : Context) (frame : MethodFrame) (m : Nat) :
    method { c with methods := c.methods.push frame } m = if m = c.methods.size then frame else c.method m := by
  simp only [method, Array.getElem?_push]
  split <;> rfl

theorem lt_addMethod (c : Context) (obj : Nat) (parent : Option Nat) : c.methods.size < (c.addMethod obj parent).2.methods.size := by
  simp only [addMethod, Array.size_push, Nat.lt_succ_self]

theorem retains_addMethod (c : Context) (obj : Nat) (parent : Option Nat) : c.Retains (c.addMethod obj parent).2 := by
  refine ⟨Nat.le_refl _, fun _ _ => rfl, fun _ _ => rfl, Nat.le_of_lt (c.lt_addMethod obj parent), fun m => ?_⟩
  simp only [addMethod, method_push]
  split
  · rename_i he
    rw [he, method, Array.getElem?_eq_none (Nat.le_refl _)]
    exact Nat.le_refl _
  · exact Nat.le_refl _

theorem retains_addBinding (c : Context) (b : Binding) : c.Retains (c.addBinding b).2 := by
  refine ⟨?_, fun x hx => ?_, fun x hx => ?_, Nat.le_refl _, fun _ => Nat.le_refl _⟩
  · simp only [addBinding, Array.size_push]
    omega
  all_goals
    rw [addBinding, binding_push, if_neg (Nat.ne_of_lt hx)]

theorem retains_allocSlot (c : Context) : c.Retains c.allocSlot.2 := by
  refine ⟨Nat.le_refl _, fun _ _ => rfl, fun _ _ => rfl, ?_, fun k => ?_⟩
  all_goals
    simp only [allocSlot]
    split
  · exact Nat.le_of_eq Array.size_modify.symm
  · exact Nat.le_refl _
  · simp only [method, Array.getElem?_modify]
    split
    · cases c.methods[k]? with
      | none => exact Nat.le_refl _
      | some frame => exact Nat.le_max_left _ _
    · exact Nat.le_refl _
  · exact Nat.le_refl _

theorem retains_registerLocal (c : Context) (name : Symbol) (tag : Option String) (prim : Option Prim) (isArg : Bool) :
    c.Retains (c.registerLocal name tag prim isArg).2 := (retains_allocSlot c).trans (retains_addBinding _ _)

theorem Beside.retains (h : c.Beside c') : c.Retains c' ∧ c'.scope = c.scope := by
  obtain ⟨w, ps, ws, rfl⟩ := h
  exact ⟨retains_of_eq rfl rfl, rfl⟩

/-! ## Spaced contexts -/

theorem Retains.localsOf (hr : c.Retains c') (hk : ∀ e ∈ c.scope.env, e.2 < c.bindings.size) (he : c'.scope.env = c.scope.env)
    (m : Nat) : c'.localsOf m = c.localsOf m := by
  rw [Context.localsOf, he]
  exact List.filter_congr fun e hmem => by rw [hr.owner _ (hk e hmem)]

/-- What is in use stays in use as long as the scope says the same about slots. -/
theorem Spaced.retains (hc : c.Spaced g) (hr : c.Retains c') (hs : c'.scope.layout = c.scope.layout) : c'.Spaced g := by
  obtain ⟨hmethod, hrest⟩ := Prod.mk.inj hs
  obtain ⟨hnext, henv⟩ := Prod.mk.inj hrest
  refine ⟨fun e he => ?_, fun e he m hm => ?_, fun m hm => ?_⟩
  · rw [henv] at he
    exact Nat.lt_of_lt_of_le (hc.known e he) hr.size
  · rw [henv] at he
    rw [hr.owner _ (hc.known e he)] at hm
    exact Nat.lt_of_lt_of_le (hc.owner e he m hm) hr.methods
  · rw [hmethod] at hm
    obtain ⟨hlt, hpos, ha⟩ := hc.current m hm
    have hlocals : c'.localsOf m = c.localsOf m := hr.localsOf hc.known henv m
    have hslot : ∀ e ∈ c.localsOf m, (c'.binding e.2).slot = (c.binding e.2).slot := fun e he =>
      hr.slot _ (hc.known e (List.mem_filter.1 he).1)
    have huse : c'.inUse g m = c.inUse g m := by rw [inUse, hlocals, List.map_congr_left hslot, inUse]
    refine ⟨Nat.lt_of_lt_of_le hlt hr.methods, hnext ▸ hpos, ?_, ?_, ?_, ?_, ha.tries⟩
    · rw [huse]
      exact ha.distinct
    · rw [huse, hnext]
      exact ha.below
    · rw [hnext]
      exact Nat.le_trans ha.top (Nat.succ_le_succ (hr.maxSlot m))
    · rw [hlocals]
      exact fun e he h0 => ha.self e he (hslot e he ▸ h0)

/-- To hold less is to use less. -/
theorem Spaced.mono (hc : c.Spaced h) (ht : g.tries.Sublist h.tries) (hs : ∀ s ∈ h.selves, s ∈ g.selves) : c.Spaced g := by
  refine ⟨hc.known, hc.owner, fun m hm => ?_⟩
  obtain ⟨hlt, hpos, ha⟩ := hc.current m hm
  have hsub : (c.inUse g m).Sublist (c.inUse h m) := ht.append_left _
  refine ⟨hlt, hpos, ha.distinct.sublist hsub, fun slot hslot => ha.below slot (hsub.subset hslot), ha.top, fun e he h0 => ?_,
    fun h0 => ha.tries (ht.subset h0)⟩
  exact (ha.self e he h0).imp_right (hs e.1)

/-- Where there is no method and nothing is visible nothing is in use. -/
theorem spaced_bare (hm : c.scope.method = none) (he : c.scope.env = []) : c.Spaced g := by
  refine ⟨fun e h => ?_, fun e h => ?_, fun m h => ?_⟩
  · rw [he] at h
    cases h
  · rw [he] at h
    cases h
  · rw [hm] at h
    cases h

/-- A slot that is handed out is held until something takes it. -/
theorem spaced_allocSlot (hc : c.Spaced g) : c.allocSlot.2.Spaced { g with tries := c.allocSlot.1 :: g.tries } := by
  have hr := retains_allocSlot c
  refine ⟨hc.known, fun e he m hm => Nat.lt_of_lt_of_le (hc.owner e he m hm) hr.methods, fun m hm => ?_⟩
  obtain ⟨hlt, hpos, ha⟩ := hc.current m hm
  have hnew : c.scope.nextSlot ∉ c.inUse g m := fun h => Nat.lt_irrefl _ (ha.below _ h)
  have htop : c.scope.nextSlot ≤ (c.allocSlot.2.method m).maxSlot := by
    have hm' : c.scope.method = some m := hm
    simp only [allocSlot, hm', method, Array.getElem?_modify, if_pos, Array.getElem?_eq_getElem hlt]
    exact Nat.le_max_right _ _
  refine ⟨Nat.lt_of_lt_of_le hlt hr.methods, Nat.succ_pos _, ?_, fun slot hslot => ?_, Nat.succ_le_succ htop, ha.self, ?_⟩
  · exact List.perm_middle.nodup_iff.2 (List.nodup_cons.2 ⟨hnew, ha.distinct⟩)
  · rcases List.mem_append.1 hslot with h | h
    · exact Nat.lt_succ_of_lt (ha.below slot (List.mem_append_left _ h))
    · rcases List.mem_cons.1 h with rfl | h
      · exact Nat.lt_succ_self _
      · exact Nat.lt_succ_of_lt (ha.below slot (List.mem_append_right _ h))
  · exact List.not_mem_cons_of_ne_of_not_mem (Nat.ne_of_lt hpos) ha.tries

/-- The visible locals of a method when one more is visible. -/
theorem localsOf_addBinding (hk : ∀ e ∈ c.scope.env, e.2 < c.bindings.size) (b : Binding) (m : Nat) :
    (c.addBinding b).2.localsOf m = if b.method = some m then (b.name, c.bindings.size) :: c.localsOf m else c.localsOf m := by
  have hold : (c.scope.env.filter fun e => ((c.addBinding b).2.binding e.2).method == some m) = c.localsOf m :=
    List.filter_congr fun e he => by rw [addBinding, binding_push, if_neg (Nat.ne_of_lt (hk e he))]
  have hnew : (c.addBinding b).2.binding c.bindings.size = b := by rw [addBinding, binding_push, if_pos rfl]
  rw [localsOf, show (c.addBinding b).2.scope.env = (b.name, c.bindings.size) :: c.scope.env from rfl, List.filter_cons, hold]
  simp only [hnew, beq_iff_eq]

/-- A local takes a slot that was held for it, or slot zero if it is the first one of its method. -/
theorem spaced_addBinding (hc : c.Spaced h) (hb : b.method = c.scope.method)
    (hslot : ∀ m, c.scope.method = some m → ((c.localsOf m).map (fun e => (c.binding e.2).slot) ++ b.slot :: g.tries).Nodup ∧
      b.slot < c.scope.nextSlot ∧ (b.slot = 0 → c.localsOf m = [] ∧ b.name ∈ g.selves))
    (ht : g.tries.Sublist h.tries) (hs : ∀ s ∈ h.selves, s ∈ g.selves) : (c.addBinding b).2.Spaced g := by
  have hr := retains_addBinding c b
  have hnew : (c.addBinding b).2.binding c.bindings.size = b := by rw [addBinding, binding_push, if_pos rfl]
  have hg := hc.mono ht hs
  refine ⟨fun e he => ?_, fun e he m hm => ?_, fun m hm => ?_⟩
  · rcases List.mem_cons.1 he with rfl | he
    · simp only [addBinding, Array.size_push, Nat.lt_succ_self]
    · exact Nat.lt_of_lt_of_le (hc.known e he) hr.size
  · rcases List.mem_cons.1 he with rfl | he
    · rw [hnew, hb] at hm
      exact (hc.current m hm).1
    · rw [hr.owner _ (hc.known e he)] at hm
      exact hc.owner e he m hm
  · obtain ⟨hlt, hpos, ha⟩ := hg.current m hm
    obtain ⟨hdistinct, hbelow, hzero⟩ := hslot m hm
    have hlocals : (c.addBinding b).2.localsOf m = (b.name, c.bindings.size) :: c.localsOf m := by
      rw [localsOf_addBinding hc.known, if_pos (hb.trans hm)]
    have hold : ∀ e ∈ c.localsOf m, ((c.addBinding b).2.binding e.2).slot = (c.binding e.2).slot := fun e he =>
      hr.slot _ (hc.known e (List.mem_filter.1 he).1)
    have huse : (c.addBinding b).2.inUse g m = b.slot :: c.inUse g m := by
      rw [inUse, hlocals, List.map_cons, List.map_congr_left hold, hnew, inUse, List.cons_append]
    refine ⟨hlt, hpos, ?_, ?_, ha.top, fun e he h0 => ?_, ha.tries⟩
    · rw [huse]
      exact List.perm_middle.nodup_iff.1 hdistinct
    · rw [huse]
      exact List.forall_mem_cons.2 ⟨hbelow, ha.below⟩
    · rw [hlocals] at he ⊢
      rcases List.mem_cons.1 he with rfl | he
      · rw [hnew] at h0
        obtain ⟨hnil, hname⟩ := hzero h0
        exact ⟨by rw [hnil]; rfl, hname⟩
      · obtain ⟨hlast, hname⟩ := ha.self e he (hold e he ▸ h0)
        rw [List.getLast?_cons, hlast]
        exact ⟨rfl, hname⟩

theorem spaced_registerLocal (hc : c.Spaced g) (name : Symbol) (tag : Option String) (prim : Option Prim) (isArg : Bool) :
    (c.registerLocal name tag prim isArg).2.Spaced g := by
  have hheld := spaced_allocSlot hc
  refine spaced_addBinding hheld rfl (fun m hm => ?_) (List.sublist_cons_self _ _) fun _ h => h
  obtain ⟨-, -, ha⟩ := hheld.current m hm
  refine ⟨ha.distinct, Nat.lt_succ_self _, fun h0 => absurd (List.mem_cons.2 (.inl ?_)) ha.tries⟩
  exact h0.symm

/-- The object of a method that has just been entered gets its name. -/
theorem spaced_registerThis (hc : c.Entered) {name : Symbol} {selves : List Symbol} (hname : name ∈ selves) (tag : Option String) :
    (c.registerThis name tag).2.Spaced { selves } := by
  refine spaced_addBinding hc.spaced rfl (fun m hm => ?_) (List.Sublist.refl _) fun _ h => by cases h
  rw [hc.bare m hm]
  exact ⟨List.pairwise_singleton _ _, (hc.spaced.current m hm).2.1, fun _ => ⟨rfl, hname⟩⟩

/-- A method that is new is entered. -/
theorem entered_of_new (hc : c.Spaced g) (hr : c.Retains c') (hm : c'.scope.method = some m) (hnext : c'.scope.nextSlot = 1)
    (hnew : c.methods.size ≤ m) (hlt : m < c'.methods.size) (henv : ∀ e ∈ c'.scope.env, e ∈ c.scope.env) : c'.Entered := by
  have hbare : c'.localsOf m = [] := by
    refine List.filter_eq_nil_iff.2 fun e he => ?_
    have hmem := henv e he
    rw [hr.owner _ (hc.known e hmem), beq_iff_eq]
    exact fun ho => absurd (hc.owner e hmem m ho) (Nat.not_lt.2 hnew)
  have huse : c'.inUse {} m = [] := by rw [inUse, hbare]; rfl
  refine ⟨⟨fun e he => Nat.lt_of_lt_of_le (hc.known e (henv e he)) hr.size, fun e he k hk => ?_, fun k hk => ?_⟩, fun k hk => ?_⟩
  · rw [hr.owner _ (hc.known e (henv e he))] at hk
    exact Nat.lt_of_lt_of_le (hc.owner e (henv e he) k hk) hr.methods
  · cases hm.symm.trans hk
    refine ⟨hlt, hnext ▸ Nat.one_pos, by rw [huse]; exact List.nodup_nil, fun slot hslot => ?_, ?_, fun e he => ?_, List.not_mem_nil⟩
    · rw [huse] at hslot
      cases hslot
    · rw [hnext]
      exact Nat.succ_le_succ (Nat.zero_le _)
    · rw [hbare] at he
      cases he
  · cases hm.symm.trans hk
    exact hbare

end Context

/-! ## Analyses -/

/-- What an analysis keeps. -/
structure Context.Keeps (g : Held) (still : Bool) (c c' : Context) : Prop where
  retains : c.Retains c'
  spaced : c'.Spaced g
  scope : still = true → c'.scope = c.scope

namespace Analysis

open Context

variable {α β : Type} {g h : Held} {still : Bool} {x x' : Analysis α} {f f' : α → Analysis β} {c c' : Context}

/-- From here the analyses do the same, and keep things. -/
def SpacesAt (g : Held) (still : Bool) (c : Context) (x x' : Analysis α) : Prop := x c = x' c ∧ c.Keeps g still (x c).2

/-- From a spaced context the analyses do the same, and however they end, the context is spaced. -/
def Spaces (g : Held) (still : Bool) (x x' : Analysis α) : Prop := ∀ c : Context, c.Spaced g → SpacesAt g still c x x'

theorem Spaces.at (h : Spaces g still x x') (hc : c.Spaced g) : SpacesAt g still c x x' := h c hc

theorem keeps_of_still (hc : c.Spaced g) (hr : c.Retains c') (hs : c'.scope = c.scope) : c.Keeps g still c' :=
  ⟨hr, hc.retains hr (congrArg Scope.layout hs), fun _ => hs⟩

/-- An analysis that comes back to the scope is as good as any. -/
theorem Spaces.any (h : Spaces g true x x') : Spaces g still x x' := fun c hc =>
  ⟨(h c hc).1, (h c hc).2.retains, (h c hc).2.spaced, fun _ => (h c hc).2.scope rfl⟩

theorem spaces_step (h : ∀ c : Context, c.Spaced g → c.Keeps g still (x c).2) : Spaces g still x x := fun c hc => ⟨rfl, h c hc⟩

theorem Aside.spaces (h : Aside x) : Spaces g still x x := spaces_step fun c hc => keeps_of_still hc (h c).retains.1 (h c).retains.2

theorem spaces_pure (a : α) : Spaces g still (Pure.pure a : Analysis α) (Pure.pure a) := (aside_pure a).spaces

theorem spaces_fail (e : CompileFault) : Spaces g still (fail e : Analysis α) (fail e) := (aside_fail e).spaces

theorem spaces_cut : Spaces g still (cut : Analysis α) cut := aside_cut.spaces

/-- One analysis after the other. -/
theorem SpacesAt.bind (hx : SpacesAt g still c x x')
    (hf : ∀ a c', x c = (.ok a, c') → c.Keeps g still c' → SpacesAt g still c' (f a) (f' a)) :
    SpacesAt g still c (x >>= f) (x' >>= f') := by
  obtain ⟨hsame, hkeeps⟩ := hx
  rcases hxc : x c with ⟨res, c₁⟩
  rw [hxc] at hsame hkeeps
  unfold SpacesAt
  cases res with
  | ok a =>
    obtain ⟨hsame', hkeeps'⟩ := hf a c₁ hxc hkeeps
    rw [bind_of_ok hxc, bind_of_ok hsame.symm]
    exact ⟨hsame', hkeeps.retains.trans hkeeps'.retains, hkeeps'.spaced, fun hs => (hkeeps'.scope hs).trans (hkeeps.scope hs)⟩
  | error e =>
    rw [bind_of_error hxc, bind_of_error hsame.symm]
    exact ⟨rfl, hkeeps⟩
  | cut =>
    rw [bind_of_cut hxc, bind_of_cut hsame.symm]
    exact ⟨rfl, hkeeps⟩

theorem Spaces.bind (hx : Spaces g still x x') (hf : ∀ a, Spaces g still (f a) (f' a)) : Spaces g still (x >>= f) (x' >>= f') :=
  fun c hc => (hx c hc).bind fun a c' _ hk => hf a c' hk.spaced

/-- A change of the context after which more is held or less. -/
theorem SpacesAt.change {r : Context → α × Context} (hr : c.Retains (r c).2) (hs : still = true → (r c).2.scope = c.scope)
    (hf : SpacesAt h still (r c).2 (f (r c).1) (f' (r c).1)) (hgood : ∀ c' : Context, c'.Spaced h → c'.Spaced g) :
    SpacesAt g still c (Analysis.change r >>= f) (Analysis.change r >>= f') :=
  ⟨hf.1, hr.trans hf.2.retains, hgood _ hf.2.spaced, fun h => (hf.2.scope h).trans (hs h)⟩

/-- What only looks at the context. -/
theorem spacesAt_read {r : Context → α} (hf : SpacesAt g still c (f (r c)) (f' (r c))) :
    SpacesAt g still c (read r >>= f) (read r >>= f') := hf

theorem spaces_read {r : Context → α} (hf : ∀ a, Spaces g still (f a) (f' a)) : Spaces g still (read r >>= f) (read r >>= f') :=
  fun c hc => spacesAt_read (hf (r c) c hc)

/-- What comes first is beside the tables, and something is known of its result. -/
theorem spaces_known (hx : Aside x) (hf : ∀ a c c', x c = (.ok a, c') → Spaces g still (f a) (f' a)) :
    Spaces g still (x >>= f) (x >>= f') := fun c hc => (hx.spaces c hc).bind fun a c' ha hk => hf a c c' ha c' hk.spaced

theorem spaces_aside (hx : Aside x) (hf : ∀ a, Spaces g still (f a) (f' a)) : Spaces g still (x >>= f) (x >>= f') :=
  spaces_known hx fun a _ _ _ => hf a

theorem spacesAt_ofExcept {e : Except CompileFault α} (hc : c.Spaced g) (hf : ∀ a, e = .ok a → SpacesAt g still c (f a) (f' a)) :
    SpacesAt g still c (ofExcept e >>= f) (ofExcept e >>= f') := by
  cases e with
  | ok a => exact hf a rfl
  | error e => exact spaces_fail e c hc

theorem spaces_ofExcept {e : Except CompileFault α} (hf : ∀ a, Spaces g still (f a) (f' a)) :
    Spaces g still (ofExcept e >>= f) (ofExcept e >>= f') := fun c hc => spacesAt_ofExcept hc fun a _ => hf a c hc

/-- A step that may be left out. -/
theorem spaces_if {b : Prop} [Decidable b] {y : Analysis PUnit} {z z' : Analysis β} (hy : Aside y) (hz : Spaces g still z z') :
    Spaces g still (if b then y >>= fun _ => z else z) (if b then y >>= fun _ => z' else z') := by
  split
  · exact spaces_aside hy fun _ => hz
  · exact hz

/-- A step with a look at the context before it, that may be left out. -/
theorem spaces_ifRead {b : Prop} [Decidable b] {r : Context → α} {y : α → Analysis PUnit} {z z' : Analysis β}
    (hy : ∀ a, Aside (y a)) (hz : Spaces g still z z') :
    Spaces g still (if b then read r >>= fun a => y a >>= fun _ => z else z)
      (if b then read r >>= fun a => y a >>= fun _ => z' else z') := by
  split
  · exact spaces_read fun a => spaces_aside (hy a) fun _ => hz
  · exact hz

theorem spaces_forList {as : List α} (hf : ∀ a ∈ as, Spaces g still (f a) (f' a)) : Spaces g still (forList f as) (forList f' as) := by
  induction as with
  | nil => exact spaces_pure []
  | cons a as ih =>
    refine (hf a List.mem_cons_self).bind fun b => ?_
    exact (ih fun a ha => hf a (List.mem_cons_of_mem _ ha)).bind fun bs => spaces_pure (b :: bs)

theorem spaces_forM {f : α → Analysis PUnit} (hf : ∀ a, Spaces g still (f a) (f a)) (as : List α) :
    Spaces g still (as.forM f) (as.forM f) := by
  induction as with
  | nil => exact spaces_pure PUnit.unit
  | cons a as ih =>
    rw [List.forM_eq_forM, List.forM_cons]
    exact (hf a).bind fun _ => ih

/-! ## Scopes -/

theorem spacesAt_nested (hc : c.Spaced g) (hsame : x c = x' c) (hr : c.Retains (x c).2) : SpacesAt g still c (nested x) (nested x') := by
  refine ⟨?_, keeps_of_still hc (hr.trans (retains_of_eq rfl rfl)) rfl⟩
  simp only [nested, hsame]

/-- The scope is put back. -/
theorem spaces_nested (h : Spaces g false x x') : Spaces g still (nested x) (nested x') := fun c hc =>
  spacesAt_nested hc (h c hc).1 (h c hc).2.retains

/-- What is analyzed in between has a scope of its own. -/
theorem spacesAt_enter {r : Scope → Scope} (hc : c.Spaced g) (hx : SpacesAt h false (c.modifyScope r) x x') :
    SpacesAt g still c (nested (modifyScope r >>= fun _ => x)) (nested (modifyScope r >>= fun _ => x')) :=
  spacesAt_nested hc hx.1 ((c.retains_modifyScope r).trans hx.2.retains)

theorem SpacesAt.located (h : SpacesAt g still c x x') : SpacesAt g still c (located x) (located x') := by
  obtain ⟨hsame, hkeeps⟩ := h
  have hcontext : (Analysis.located x c).2 = (x c).2 := by
    simp only [Analysis.located]
    rcases x c with ⟨_ | _ | _, _⟩ <;> rfl
  refine ⟨by simp only [Analysis.located, hsame], ?_⟩
  rw [hcontext]
  exact hkeeps

/-- The analysis goes on in a scope that says the same about slots. -/
theorem spaces_shift {r : Scope → Scope} {z z' : PUnit → Analysis β} (hr : ∀ s, (r s).layout = s.layout)
    (hz : Spaces g false (z ⟨⟩) (z' ⟨⟩)) : Spaces g false (modifyScope r >>= z) (modifyScope r >>= z') := by
  have hstep : Spaces g false (modifyScope r) (modifyScope r) := spaces_step fun c hc =>
    ⟨c.retains_modifyScope r, hc.retains (c.retains_modifyScope r) (hr c.scope), fun h => Bool.noConfusion h⟩
  exact hstep.bind fun _ => hz

theorem spaces_arm {branch : Nat} (h : Spaces g false x x') : Spaces g still (arm branch x) (arm branch x') :=
  spaces_nested (spaces_aside (aside_addPath _ _) fun _ => spaces_shift (fun _ => rfl) h)

/-! ## Changes of the tables -/

theorem spaces_change {r : Context → α × Context} (hr : ∀ c : Context, c.Retains (r c).2 ∧ (r c).2.scope = c.scope) :
    Spaces g still (change r) (change r) := spaces_step fun c hc => keeps_of_still hc (hr c).1 (hr c).2

theorem spaces_modify {r : Context → Context} (hr : ∀ c : Context, c.Retains (r c) ∧ (r c).scope = c.scope) :
    Spaces g still (modify r) (modify r) := spaces_step fun c hc => keeps_of_still hc (hr c).1 (hr c).2

theorem spaces_referenceLocal (x : Nat) (tag : Option String) : Spaces g still (referenceLocal x tag) (referenceLocal x tag) :=
  spaces_change fun c => ⟨c.retains_referenceLocal x tag, c.scope_referenceLocal x tag⟩

theorem spaces_addObject (name : String) (kind : ObjectKind) (once : Bool) :
    Spaces g still (change (·.addObject name kind once)) (change (·.addObject name kind once)) :=
  spaces_change fun _ => ⟨retains_of_eq rfl rfl, rfl⟩

theorem spaces_registerLocal (name : Symbol) (tag : Option String) (prim : Option Prim) (isArg : Bool) :
    Spaces g false (registerLocal name tag prim isArg) (registerLocal name tag prim isArg) := spaces_step fun c hc =>
  ⟨c.retains_registerLocal name tag prim isArg, spaced_registerLocal hc name tag prim isArg, fun h => Bool.noConfusion h⟩

end Analysis

end LispMachine
