import Mathlib.Data.List.Nodup
import LispMachine.Proofs.Expr.Switch
/-!
# Locals and loops

Locals get their slots one after the other.  A loop goes back to its head with all its locals rebound at once, and
every round costs at least the jump, so an allowance for rounds is as good as one for instructions.
-/
namespace LispMachine

namespace Locals

variable {ρ : Locals}

theorem setAll_of_not_mem {b : Nat} : ∀ {us : List (Nat × Slot)} {ρ : Locals}, (∀ u ∈ us, u.1 ≠ b) → ρ.setAll us b = ρ b
  | [], _, _ => rfl
  | u :: us, ρ, h => by
    have ih : (ρ.set u.1 u.2).setAll us b = ρ.set u.1 u.2 b := setAll_of_not_mem fun u' hu => h u' (List.mem_cons_of_mem u hu)
    show (ρ.set u.1 u.2).setAll us b = ρ b
    rw [ih, Locals.set, if_neg (Ne.symm (h u List.mem_cons_self))]

theorem setAll_of_mem : ∀ {us : List (Nat × Slot)} {ρ : Locals}, (us.map (·.1)).Nodup → ∀ u ∈ us, ρ.setAll us u.1 = u.2
  | u :: us, ρ, hn, u', hu => by
    obtain ⟨hnot, hn⟩ := List.nodup_cons.1 hn
    show (ρ.set u.1 u.2).setAll us u'.1 = u'.2
    rcases List.mem_cons.1 hu with rfl | hu
    · rw [setAll_of_not_mem, Locals.set, if_pos rfl]
      exact fun u'' hu'' he => hnot (List.mem_map.2 ⟨u'', hu'', he⟩)
    · exact setAll_of_mem hn u' hu

end Locals

namespace Machine

open LispMachine.Emit LispMachine.Frame LispMachine.Expr

variable {S : Activation} {i : Image} {bound bound₀ : Nat} {scope : List Nat} {ρ : Locals} {f g : Frame} {w w' : World}
  {loop : Option (List Nat)} {head : Label} {k p q pc' n : Nat} {st : List Slot} {dest : Dest} {hs : List Handler}

/-! ## Bindings -/

/-- Locals that get their values one after the other, each in a slot above. -/
theorem realizes_bindings (hi : S.Installed i) {kinds : Nat → Option Prim} : ∀ {bindings : List (Nat × Expr)} {bound k : Nat}
    {scope : List Nat} {ρ : Locals} {f : Frame} {w : World} {hs : List Handler}, (∀ b ∈ bindings, S.Faithful i n b.2) →
    S.context.IntroducesAll S.frame bound (bindings.map (·.1)) → ScopedBindings S.context S.frame bound scope bindings →
    S.Ready i bound scope ρ f w → LaidBindings (S.env head) kinds bindings i S.entryOf k f.pc p hs →
    Realizes S.depth n f w (fun ρ' g => f.Comes bound p f.stack g ∧ ∀ w' : World, w'.code = w.code →
      S.Ready i (S.context.boundAfter bound (bindings.map (·.1))) ((bindings.map (·.1)).reverse ++ scope) ρ' g w')
      (meaningBindings S n k ρ kinds bindings w)
  | [], bound, k, scope, ρ, f, w, hs, _, _, _, hr, hl => by
    obtain ⟨_, hs, _⟩ := hl
    cases hs
    rw [meaningBindings]
    exact .pure ⟨Comes.refl bound f, fun w' hc => hr.comes (Comes.refl bound f) hc⟩
  | (b, init) :: rest, bound, k, scope, ρ, f, w, hs, hes, hintro, hsc, hr, hl => by
    obtain ⟨p₁, _, _, _, hinit, p₂, _, _, _, ⟨_, ⟨hstore, he⟩, _⟩, hrest⟩ := hl
    cases he
    rw [meaningBindings]
    refine (realizes_operand (hes _ List.mem_cons_self) hsc.1 hr hinit).bind fun s g w₁ _ hreach hg => ?_
    have hr₁ := hr.comes hg hreach.code_eq
    rw [← hr₁.method, ← hg.pc] at hstore
    have hlt : slotOf (S.env head) b < g.locals.size := Nat.lt_of_le_of_lt hintro.1.within hr₁.room
    have hst := goes_local (d := S.depth) (w := w₁) hstore rfl (stepLocal_store (f := { g with pc := g.pc + 1 }) hg.stack hlt)
    have hr₂ := hr₁.introduces hintro.1 (g.pc + 1) f.stack s
    have hg₂ := hg.trans (Activation.Ready.comes_introduces hintro.1 g (g.pc + 1) f.stack s)
    rw [← hg.pc] at hrest
    refine .after (.single hst) ((realizes_bindings hi (fun b h => hes b (List.mem_cons_of_mem _ h)) hintro.2 hsc.2 hr₂ hrest).mono
      fun ρ' h hh => ⟨?_, fun w' hc => ?_⟩)
    · exact hg₂.trans (hh.1.below (Nat.le_succ_of_le hintro.1.above))
    · rw [List.map_cons, List.reverse_cons, List.append_assoc]
      exact hh.2 w' (hc.trans hreach.code_eq.symm)

theorem faithful_let (hi : S.Installed i) {bindings : List (Nat × Expr)} {body : Expr}
    (hes : ∀ b ∈ bindings, S.Faithful i n b.2) (hb : S.Faithful i n body) : S.Faithful i n (.bind false bindings body) := by
  intro bound scope loop head dest k ρ f w pc' hs hsc hloop hr hl
  obtain ⟨p, _, _, _, hbind, hbody⟩ := hl
  obtain ⟨hintro, hscb, hscbody⟩ := hsc
  rw [Expr.meaning]
  simp only [bind_assoc, Bool.false_eq_true, if_false]
  refine (realizes_bindings hi hes hintro hscb hr hbind).bind fun ρ' g w' _ hreach hg => ?_
  obtain ⟨hg, hready⟩ := hg
  rw [← hg.pc] at hbody
  refine (hb hscbody ?_ (hready w' hreach.code_eq) hbody).mono fun _ _ hl => (hl.below hintro.le_boundAfter).of_comes hg
  exact fun ts ht => ⟨(hloop ts ht).1, fun t hm => List.mem_append_right _ ((hloop ts ht).2 t hm)⟩

/-! ## Rebinding -/

/-- Values on the stack go to the slots of locals, the topmost first. -/
theorem reaches_stores (w : World) : ∀ (ts : List Nat) (ss : List Slot) {f : Frame}, ts.length = ss.length →
    (∀ t ∈ ts, (S.context.binding t).slot < f.locals.size) → (ts.map fun t => (S.context.binding t).slot).Nodup →
    f.method = i.method → f.stack = ss ++ st → i.Spans (ts.map fun t => .store (S.context.binding t).slot) f.pc p →
    ∃ g, Reaches S.depth f w g w ∧ f.Comes 0 p st g ∧
      (∀ u ∈ ts.zip ss, g.locals[(S.context.binding u.1).slot]? = some u.2) ∧
      ∀ slot, (∀ t ∈ ts, (S.context.binding t).slot ≠ slot) → g.locals[slot]? = f.locals[slot]?
  | [], [], f, _, _, _, _, hst, hs => by
    cases hs
    refine ⟨f, .refl f w, ?_, (fun _ h => by cases h), fun _ _ => rfl⟩
    have h := Comes.refl 0 f
    rw [hst] at h
    exact h
  | t :: ts, s :: ss, f, hlen, hlt, hnodup, hm, hst, hs => by
    obtain ⟨hj, hs⟩ := hs
    obtain ⟨hnot, hnodup⟩ := List.nodup_cons.1 hnodup
    rw [← hm] at hj
    have hst' := goes_local (d := S.depth) (w := w) hj rfl
      (stepLocal_store (f := { f with pc := f.pc + 1 }) hst (hlt t List.mem_cons_self))
    obtain ⟨g, hreach, hg, hset, hkept⟩ := reaches_stores w ts ss
      (f := { f with pc := f.pc + 1, stack := ss ++ st, locals := f.locals.modify (S.context.binding t).slot fun _ => s })
      (Nat.succ.inj hlen) (fun t' ht => by simpa using hlt t' (List.mem_cons_of_mem t ht)) hnodup hm rfl hs
    refine ⟨g, .step hst' hreach, ?_, ?_, ?_⟩
    · exact ⟨hg.unit, hg.method, hg.this, by simpa using hg.size, (fun _ h => by cases h), hg.pc, hg.stack⟩
    · intro u hu
      rcases List.mem_cons.1 hu with rfl | hu
      · rw [hkept _ fun t' ht he => hnot (List.mem_map.2 ⟨t', ht, he⟩)]
        simp only [Array.getElem?_modify, if_true, Array.getElem?_eq_getElem (hlt t List.mem_cons_self), Option.map_some]
      · exact hset u hu
    · intro slot hslot
      rw [hkept slot fun t' ht => hslot t' (List.mem_cons_of_mem t ht)]
      simp only [Array.getElem?_modify, if_neg (hslot t List.mem_cons_self)]

theorem mem_zip_reverse {ts : List Nat} {ss : List Slot} (h : ts.length = ss.length) {u : Nat × Slot} :
    u ∈ ts.reverse.zip ss.reverse ↔ u ∈ ts.zip ss := by
  rw [List.zip_eq_zipWith, List.zip_eq_zipWith, ← List.reverse_zipWith h, List.mem_reverse]

theorem nodup_slots (hs : S.context.ScopeOk S.frame bound scope) {ts : List Nat} (hn : ts.Nodup) (hm : ∀ t ∈ ts, t ∈ scope) :
    (ts.map fun t => (S.context.binding t).slot).Nodup := by
  refine List.Nodup.map_on ?_ hn
  exact fun t ht t' ht' he => hs.distinct t (hm t ht) t' (hm t' ht') he

theorem faithful_recur {targets : List Nat} {args : List Expr} (line : Nat)
    (hes : ∀ e ∈ args, S.Faithful i n e) : S.Faithful i n (.recur targets args line) := by
  intro bound scope loop head dest k ρ f w pc' hs hsc hloop hr hl
  obtain ⟨p, _, _, _, hargs, _, hcode, _⟩ := hl
  obtain ⟨hl, hlen, hsca⟩ := hsc
  obtain ⟨hnodup, hmem⟩ := hloop targets hl
  rw [Expr.meaning]
  simp only [bind_assoc, pure_bind]
  refine (realizes_args hes hsca hr hargs).bind fun ss g w' _ hreach hg => ?_
  obtain ⟨hg, hss⟩ := hg
  have hr' := hr.comes hg hreach.code_eq
  obtain ⟨p', hstores, hjump, _⟩ := Image.spans_append.1 hcode
  have hlen' : targets.length = ss.length := by rw [hss, hlen]
  rw [← hg.pc] at hstores
  obtain ⟨h, hreach', hh, hset, hkept⟩ := reaches_stores (S := S) w' targets.reverse ss.reverse
    (by simpa using hlen')
    (fun t ht => Nat.lt_of_le_of_lt (hr'.inScope.within t (hmem t (List.mem_reverse.1 ht))) hr'.room)
    (nodup_slots hr'.inScope (List.nodup_reverse.2 hnodup) fun t ht => hmem t (List.mem_reverse.1 ht))
    hr'.method hg.stack hstores
  refine .value hreach' ⟨?_, ?_, hh.unit.trans hg.unit, hh.method.trans hg.method, hh.this.trans hg.this,
    hh.size.trans hg.size, hh.stack, fun u hu => hset u ((mem_zip_reverse hlen').2 hu), fun slot hslot hu => ?_⟩
  · rw [hl, List.map_fst_zip (Nat.le_of_eq hlen')]
  · rw [hr.method, hh.pc]
    exact hjump
  · rw [hkept slot, hg.locals slot hslot]
    intro t ht
    have ht : t ∈ (targets.zip ss).map (·.1) := by
      rw [List.map_fst_zip (Nat.le_of_eq hlen')]
      exact List.mem_reverse.1 ht
    obtain ⟨u, hu', rfl⟩ := List.mem_map.1 ht
    exact hu u hu'

/-! ## Loops -/

/-- The frame is ready for the next round. -/
theorem ready_again {ts : List Nat} {us : List (Nat × Slot)} (hloop : Activation.Rebindable scope (some ts))
    (hr : S.Ready i bound scope ρ f w) (hl : S.Lands (some ts) head bound f p (.again us) g) (hc : w'.code = w.code) (pc : Nat) :
    S.Ready i bound scope (ρ.setAll us) { g with pc } w' := by
  obtain ⟨hts, _, hunit, hmethod, hthis, hsize, _, hset, hkept⟩ := hl
  obtain ⟨l, hl, ht⟩ := hr.hosts
  obtain ⟨l', hl', ht'⟩ := World.unit_of_code_eq hc hl
  obtain ⟨hnodup, hmem⟩ := hloop ts rfl
  cases hts
  refine ⟨hr.inScope, hmethod.trans hr.method, hunit.trans hr.unit, hthis.trans hr.this, ?_, fun b hb => ?_, l', hl', ht'.trans ht⟩
  · show _ < g.locals.size
    rw [hsize]
    exact hr.room
  · by_cases hu : ∃ u ∈ us, u.1 = b
    · obtain ⟨u, hu, rfl⟩ := hu
      rw [Locals.setAll_of_mem hnodup u hu]
      exact hset u hu
    · have hne : ∀ u ∈ us, u.1 ≠ b := fun u hm he => hu ⟨u, hm, he⟩
      rw [Locals.setAll_of_not_mem hne]
      refine (hkept _ (hr.inScope.below b hb) fun u hm he => ?_).trans (hr.holds b hb)
      exact hne u hm (hr.inScope.distinct _ (hmem _ (List.mem_map_of_mem hm)) b hb he)

/-- The values of a loop do not depend on what is around it. -/
theorem lands_of_value {ts : Option (List Nat)} {kind : Option Prim} {s : Slot} {head' : Label} {a : Landing}
    (ha : (Flow.value kind s).land S.ret dest = .ok a) (hl : S.Lands ts head' bound f p a g) : S.Lands loop head bound f p a g := by
  cases a with
  | dropped | pushed | returned => exact hl
  | again us => exact absurd ha (Flow.land_value_ne _ _ _ _ _)

/-- So many rounds of a loop.  The slots below those of the locals of the loop are kept. -/
theorem realizes_iterate {ts : List Nat} {head' : Label} {body : Expr} (hb : S.Faithful i n body)
    (hsc : body.Scoped S.context S.frame bound scope (some ts)) (hloop : Activation.Rebindable scope (some ts))
    (hbelow : bound₀ ≤ bound) (habove : ∀ t ∈ ts, bound₀ ≤ (S.context.binding t).slot)
    (hhead : i.method.labelPc? head' = some p) (hlaid : Laid (S.env head') dest body i S.entryOf k p pc' hs) :
    ∀ (m : Nat), m ≤ n → ∀ {ρ : Locals} {f : Frame} {w : World}, f.pc = p → S.Ready i bound scope ρ f w →
    Realizes S.depth m f w (S.Lands loop head bound₀ f pc')
      ((Run.iterate (fun ρ => body.meaning S n k ρ) m ρ >>= fun r => Run.ofExcept (r.land S.ret dest)) w)
  | 0, _, ρ, f, w, _, _ => by
    refine .cut fun m hm => ?_
    rw [Nat.le_zero.1 hm]
    exact execute_zero _ _ _
  | m + 1, hm, ρ, f, w, hpc, hr => by
    rw [← hpc] at hlaid
    have h := hb hsc hloop hr hlaid
    rw [Run.iterate, bind_assoc]
    rcases he : body.meaning S n k ρ w with ⟨(⟨kind, s⟩ | us) | t | _, w'⟩
    · rw [Run.bind_value he] at h ⊢
      simp only [pure_bind]
      cases ha : (Flow.value kind s).land S.ret dest with
      | error e =>
        rw [ha] at h
        cases h with
        | thrown hr he => exact .thrown hr he
      | ok a =>
        rw [ha] at h
        cases h with
        | value hreach hl => exact .value hreach ((lands_of_value ha hl).below hbelow)
    · rw [Run.bind_value he] at h ⊢
      cases h with
      | value hreach hl =>
        rename_i g
        have hready := ready_again hloop hr hl hreach.code_eq p
        obtain ⟨hts, hjump, hunit, hmethod, hthis, hsize, hstack, _, hkept⟩ := hl
        cases hts
        rw [← hmethod] at hjump
        rw [← hr.method, ← hmethod] at hhead
        have hgo := goes_local (d := S.depth) (w := w') hjump rfl (stepLocal_jump (f := { g with pc := g.pc + 1 }) hhead)
        have hcomes : f.Comes bound₀ p f.stack { g with pc := p } := by
          refine ⟨hunit, hmethod, hthis, hsize, fun slot hs => ?_, rfl, hstack⟩
          refine hkept slot (Nat.lt_of_lt_of_le hs hbelow) fun u hu he => ?_
          exact Nat.not_lt.2 (habove u.1 (List.mem_map_of_mem hu)) (he ▸ hs)
        have hnext := realizes_iterate hb hsc hloop hbelow habove (by rw [← hr.method, ← hmethod]; exact hhead)
          (by rw [← hpc]; exact hlaid) m (Nat.le_of_succ_le hm) rfl hready
        exact .after hreach (.after_goes hgo (hnext.mono fun _ _ => .of_comes hcomes))
    · rw [Run.bind_thrown he] at h ⊢
      cases h with
      | thrown hr he => exact .thrown hr he
    · rw [Run.bind_cut he] at h ⊢
      cases h with
      | cut hs => exact .cut fun k hk => hs k (Nat.le_trans hk hm)

theorem faithful_loop (hi : S.Installed i) {bindings : List (Nat × Expr)} {body : Expr}
    (hes : ∀ b ∈ bindings, S.Faithful i n b.2) (hb : S.Faithful i n body) : S.Faithful i n (.bind true bindings body) := by
  intro bound scope loop head dest k ρ f w pc' hs hsc _ hr hl
  obtain ⟨p, _, _, _, hbind, head', p', _, _, _, ⟨hhead, he, _⟩, hbody⟩ := hl
  cases he
  obtain ⟨hintro, hscb, hscbody⟩ := hsc
  rw [Expr.meaning]
  simp only [bind_assoc, if_true]
  refine (realizes_bindings hi hes hintro hscb hr hbind).bind fun ρ' g w' _ hreach hg => ?_
  obtain ⟨hg, hready⟩ := hg
  have hloop : Activation.Rebindable ((bindings.map (·.1)).reverse ++ scope) (some (bindings.map (·.1))) := by
    intro ts ht
    cases ht
    exact ⟨hintro.nodup, fun t ht => List.mem_append_left _ (List.mem_reverse.2 ht)⟩
  exact (realizes_iterate hb hscbody hloop hintro.le_boundAfter hintro.above hhead hbody n (Nat.le_refl n) hg.pc
    (hready w' hreach.code_eq)).mono fun _ _ => .of_comes hg

/-! ## Local functions -/

/-- All local functions of a group have their slots before the first one is made. -/
theorem reaches_empty (w : World) : ∀ {bs : List (Nat × Expr)} {bound : Nat} {scope : List Nat} {ρ : Locals} {f : Frame},
    S.context.IntroducesAll S.frame bound (bs.map (·.1)) → S.Ready i bound scope ρ f w →
    i.Spans (emptyCode (S.env head) bs) f.pc p →
    ∃ g, Reaches S.depth f w g w ∧ f.Comes bound p f.stack g ∧
      S.Ready i (S.context.boundAfter bound (bs.map (·.1))) ((bs.map (·.1)).reverse ++ scope)
        (ρ.setAll (bs.map fun b => (b.1, Slot.empty))) g w
  | [], bound, scope, ρ, f, _, hr, hs => by
    cases hs
    exact ⟨f, .refl f w, Comes.refl bound f, hr⟩
  | (b, init) :: bs, bound, scope, ρ, f, hintro, hr, hs => by
    obtain ⟨hnil, hstore, hs⟩ := hs
    rw [← hr.method] at hnil hstore
    have hlt : slotOf (S.env head) b < f.locals.size := Nat.lt_of_le_of_lt hintro.1.within hr.room
    have hgo₁ := goes_local (d := S.depth) (w := w) hnil rfl rfl
    have hgo₂ := goes_local (f := { f with pc := f.pc + 1, stack := Slot.empty :: f.stack }) (d := S.depth) (w := w) hstore rfl
      (stepLocal_store (f := { f with pc := f.pc + 1 + 1, stack := Slot.empty :: f.stack }) rfl hlt)
    have hr' := hr.introduces hintro.1 (f.pc + 1 + 1) f.stack Slot.empty
    have hf := Activation.Ready.comes_introduces hintro.1 f (f.pc + 1 + 1) f.stack Slot.empty
    obtain ⟨g, hreach, hg, hready⟩ := reaches_empty w hintro.2 hr' hs
    refine ⟨g, .step hgo₁ (.step hgo₂ hreach), hf.trans (hg.below (Nat.le_succ_of_le hintro.1.above)), ?_⟩
    rw [List.map_cons, List.reverse_cons, List.append_assoc]
    exact hready

/-- The functions of a group are made one after the other. -/
theorem realizes_inits {kinds : Nat → Option Prim} : ∀ {bindings : List (Nat × Expr)} {k : Nat} {ρ : Locals} {f : Frame}
    {w : World} {hs : List Handler}, (∀ b ∈ bindings, S.Faithful i n b.2) →
    (∀ b ∈ bindings, b.1 ∈ scope ∧ bound₀ ≤ (S.context.binding b.1).slot) → bound₀ ≤ bound →
    ScopedInits S.context S.frame bound scope bindings → S.Ready i bound scope ρ f w →
    LaidBindings (S.env head) kinds bindings i S.entryOf k f.pc p hs →
    Realizes S.depth n f w (fun ρ' g => f.Comes bound₀ p f.stack g ∧ ∀ w' : World, w'.code = w.code →
      S.Ready i bound scope ρ' g w') (meaningBindings S n k ρ kinds bindings w)
  | [], k, ρ, f, w, hs, _, _, _, _, hr, hl => by
    obtain ⟨_, hs, _⟩ := hl
    cases hs
    rw [meaningBindings]
    exact .pure ⟨Comes.refl bound₀ f, fun w' hc => hr.comes (Comes.refl bound f) hc⟩
  | (b, init) :: rest, k, ρ, f, w, hs, hes, hmem, hbelow, hsc, hr, hl => by
    obtain ⟨p₁, _, _, _, hinit, p₂, _, _, _, ⟨_, ⟨hstore, he⟩, _⟩, hrest⟩ := hl
    cases he
    obtain ⟨hb, habove⟩ := hmem (b, init) List.mem_cons_self
    rw [meaningBindings]
    refine (realizes_operand (hes _ List.mem_cons_self) hsc.1 hr hinit).bind fun s g w₁ _ hreach hg => ?_
    have hr₁ := hr.comes hg hreach.code_eq
    rw [← hr₁.method, ← hg.pc] at hstore
    have hlt : slotOf (S.env head) b < g.locals.size := Nat.lt_of_le_of_lt (hr₁.inScope.within b hb) hr₁.room
    have hst := goes_local (d := S.depth) (w := w₁) hstore rfl (stepLocal_store (f := { g with pc := g.pc + 1 }) hg.stack hlt)
    have hr₂ := hr₁.assigns hb (g.pc + 1) f.stack s
    have hstored : f.Comes bound₀ (g.pc + 1) f.stack
        { g with pc := g.pc + 1, stack := f.stack, locals := g.locals.modify (S.context.binding b).slot fun _ => s } := by
      refine ⟨hg.unit, hg.method, hg.this, by simpa using hg.size, fun slot hs => ?_, rfl, rfl⟩
      have hne : (S.context.binding b).slot ≠ slot := Nat.ne_of_gt (Nat.lt_of_lt_of_le hs habove)
      simp only [Array.getElem?_modify, if_neg hne]
      exact hg.locals slot (Nat.lt_of_lt_of_le hs hbelow)
    rw [← hg.pc] at hrest
    refine .after (.single hst) ((realizes_inits (fun b h => hes b (List.mem_cons_of_mem _ h))
      (fun b h => hmem b (List.mem_cons_of_mem _ h)) hbelow hsc.2 hr₂ hrest).mono
      fun ρ' h hh => ⟨hstored.trans hh.1, fun w' hc => hh.2 w' (hc.trans hreach.code_eq.symm)⟩)

theorem step_initField {idx : Nat} {s t : Slot} (hst : f.stack = s :: t :: st) :
    step f (.initField idx) w = (initField idx s t.toValue >>= fun _ => pure (Action.next { f with stack := st })) w := by
  simp only [step, stepData, pop_cons hst, popValue_cons (f := { f with stack := t :: st }) rfl, Run.ofExcept_ok, pure_bind,
    bind_assoc]

/-- One local function gets those of its group that it captures. -/
theorem realizes_linkCaptures (hi : S.Installed i) {group : List (Nat × Expr)} (hgroup : ∀ b ∈ group, b.1 ∈ scope) {b : Nat}
    (hb : b ∈ scope) : ∀ {captures : List (LocalRef × Nat)} {f : Frame} {w : World}, S.Ready i bound scope ρ f w →
    i.Spans (linkOne (S.env head) group b captures) f.pc p →
    Realizes S.depth n f w (fun _ => f.Comes bound p f.stack) (Activation.linkCaptures ρ group b captures w)
  | [], f, w, _, hs => by
    cases hs
    exact .pure (Comes.refl bound f)
  | (c, idx) :: captures, f, w, hr, hs => by
    rw [linkOne, List.flatMap_cons] at hs
    rw [Activation.linkCaptures]
    dsimp only at hs
    by_cases hc : group.any (fun g => g.1 == c.binding) = true
    · rw [if_pos hc] at hs ⊢
      obtain ⟨p₁, ⟨hload, hload', hinit, he⟩, hrest⟩ := Image.spans_append.1 hs
      cases he
      have hcs : c.binding ∈ scope := by
        obtain ⟨x, hx, he⟩ := List.any_eq_true.1 hc
        rw [← eq_of_beq he]
        exact hgroup x hx
      obtain ⟨g₁, hr₁, hg₁⟩ := reaches_load (S := S) bound w hr.method (hr.holds b hb) hload
      have hready₁ := hr.comes hg₁ (v := w) rfl
      rw [← hg₁.pc] at hload' hinit
      obtain ⟨g₂, hr₂, hg₂⟩ := reaches_load (S := S) bound w hready₁.method (hready₁.holds _ hcs) hload'
      have h₂ := hg₁.trans hg₂
      rw [hg₁.stack] at h₂
      have hready₂ := hready₁.comes hg₂ (v := w) rfl
      rw [← hg₂.pc, ← hready₂.method] at hinit
      refine .after (hr₁.trans hr₂) ((realizes_step (P := fun _ => g₂.Comes bound (g₂.pc + 1) f.stack)
        (h := fun _ => { g₂ with pc := g₂.pc + 1, stack := f.stack }) (hready₂.handlers hi) hinit
        (step_initField (f := { g₂ with pc := g₂.pc + 1 }) h₂.stack) fun _ _ _ => comes_to bound g₂ _ _).bind
        fun _ g₃ w₃ _ hreach₃ hg₃ => ?_)
      have h₃ := h₂.trans hg₃
      have hpc : g₂.pc + 1 = f.pc + 1 + 1 + 1 := by rw [hg₂.pc, hg₁.pc]
      rw [hpc] at h₃
      rw [← h₃.pc] at hrest
      have h := realizes_linkCaptures hi hgroup hb (hready₂.comes hg₃ hreach₃.code_eq) hrest
      rw [h₃.stack] at h
      exact h.mono fun _ _ hh => h₃.trans hh
    · rw [if_neg hc] at hs ⊢
      exact realizes_linkCaptures hi hgroup hb hr hs

theorem realizes_linkGroup (hi : S.Installed i) {group : List (Nat × Expr)} (hgroup : ∀ b ∈ group, b.1 ∈ scope) :
    ∀ {bindings : List (Nat × Expr)} {f : Frame} {w : World}, (∀ b ∈ bindings, b.1 ∈ scope) → S.Ready i bound scope ρ f w →
    i.Spans (linkCode (S.env head) group bindings) f.pc p →
    Realizes S.depth n f w (fun _ => f.Comes bound p f.stack) (Activation.linkGroup ρ group bindings w)
  | [], f, w, _, _, hs => by
    cases hs
    exact .pure (Comes.refl bound f)
  | (b, init) :: bindings, f, w, hmem, hr, hs => by
    have hrest := fun b h => hmem b (List.mem_cons_of_mem _ h)
    cases init with
    | fn u captures line =>
      rw [linkCode] at hs
      obtain ⟨p₁, hone, hs⟩ := Image.spans_append.1 hs
      rw [Activation.linkGroup]
      refine (realizes_linkCaptures hi hgroup (hmem _ List.mem_cons_self) hr hone).bind fun _ g w' _ hreach hg => ?_
      rw [← hg.pc] at hs
      have h := realizes_linkGroup hi hgroup hrest (hr.comes hg hreach.code_eq) hs
      rw [hg.stack] at h
      exact h.mono fun _ _ hh => hg.trans hh
    | _ =>
      have h := realizes_linkGroup hi hgroup hrest hr (show i.Spans (linkCode (S.env head) group bindings) f.pc p from hs)
      exact h

theorem faithful_bindFns (hi : S.Installed i) {bindings : List (Nat × Expr)} {body : Expr}
    (hes : ∀ b ∈ bindings, S.Faithful i n b.2) (hb : S.Faithful i n body) : S.Faithful i n (.bindFns bindings body) := by
  intro bound scope loop head dest k ρ f w pc' hs hsc hloop hr hl
  obtain ⟨p₁, _, _, _, ⟨_, hempty, _⟩, p₂, _, _, _, hbind, p₃, _, _, _, ⟨_, hlink, _⟩, hbody⟩ := hl
  obtain ⟨hintro, hsci, hscbody⟩ := hsc
  obtain ⟨g₁, hreach₁, hg₁, hready₁⟩ := reaches_empty w hintro hr hempty
  have hmem : ∀ b ∈ bindings, b.1 ∈ (bindings.map (·.1)).reverse ++ scope := fun b hb =>
    List.mem_append_left _ (List.mem_reverse.2 (List.mem_map_of_mem hb))
  rw [Expr.meaning]
  simp only [bind_assoc]
  rw [← hg₁.pc] at hbind
  refine .after hreach₁ ((realizes_inits hes (fun b hb => ⟨hmem b hb, hintro.above b.1 (List.mem_map_of_mem hb)⟩)
    hintro.le_boundAfter hsci hready₁ hbind).bind fun ρ' g₂ w₂ _ hreach₂ hg₂ => ?_)
  obtain ⟨hg₂, hready₂⟩ := hg₂
  have h₂ := hg₁.trans hg₂
  rw [hg₁.stack] at h₂
  have hready₂ := hready₂ w₂ hreach₂.code_eq
  rw [← hg₂.pc] at hlink
  refine (realizes_linkGroup hi hmem hmem hready₂ hlink).bind fun _ g₃ w₃ _ hreach₃ hg₃ => ?_
  have h₃ := h₂.trans (hg₃.below hintro.le_boundAfter)
  rw [h₂.stack] at h₃
  rw [← hg₃.pc] at hbody
  refine (hb hscbody ?_ (hready₂.comes hg₃ hreach₃.code_eq) hbody).mono
    fun _ _ hl => (hl.below hintro.le_boundAfter).of_comes h₃
  exact fun ts ht => ⟨(hloop ts ht).1, fun t hm => List.mem_append_right _ ((hloop ts ht).2 t hm)⟩

end Machine

end LispMachine
