import LispMachine.Proofs.Expr.Straight
/-!
# Calls

Calls of values, keywords, protocol methods and host members.  A call that runs other code ends with the value
that completing it gives (`complete`); what the other code does is the same for the expression and for its code.
-/
namespace LispMachine.Machine

open LispMachine.Emit LispMachine.Frame LispMachine.Expr

variable {S : Activation} {i : Image} {bound : Nat} {scope : List Nat} {ρ : Locals} {f g : Frame} {w w' : World}
  {loop : Option (List Nat)} {head : Label} {k p pc' n : Nat} {st : List Slot} {dest : Dest} {hs : List Handler}

theorem clearCode_env (hi : S.Installed i) (head : Label) (tail : Bool) : clearCode (S.env head) tail = [] := by
  simp only [clearCode, Activation.env, hi.keeps, Bool.not_true, Bool.and_false, Bool.false_eq_true, if_false]

/-! ## Values, keywords and protocols -/

theorem step_invoke {ss : List Slot} {s : Slot} (hst : f.stack = ss.reverse ++ s :: st) : step f (.invoke ss.length) w =
    (invoke s.toValue (ss.map Slot.toValue) >>= fun a => pure (Action.ofAnswer { f with stack := st } a)) w := by
  simp only [step, popValues_append f hst, Run.ofExcept_ok, pure_bind,
    popValue_cons (f := { f with stack := s :: st }) rfl]

theorem faithful_invoke (hi : S.Installed i) {e : Expr} {args : List Expr} (line : Nat) (tail : Bool)
    (he : S.Faithful i n e) (hes : ∀ e ∈ args, S.Faithful i n e) : S.Faithful i n (.invoke e args line tail) := by
  intro bound scope loop head dest k ρ f w pc' hs hsc _ hr hl
  obtain ⟨p₁, _, _, _, hval, p₂, _, _, _, hargs, _, hcode, _⟩ := hl
  rw [clearCode_env hi] at hcode
  rw [Expr.meaning]
  simp only [bind_assoc, pure_bind]
  refine (realizes_operand (q := none) he hsc.1 hr hval).bind fun s g₁ w₁ _ hreach₁ hg₁ => ?_
  have hr₁ := hr.comes hg₁ hreach₁.code_eq
  rw [← hg₁.pc] at hargs
  refine (realizes_args hes hsc.2 hr₁ hargs).bind fun ss g₂ w₂ _ _ hg₂ => ?_
  refine realizes_lastCall hi hr.method (hg₁.trans hg₂.1) hcode ?_
  rw [← hg₂.2]
  exact step_invoke (f := { g₂ with pc := g₂.pc + 1 }) (hg₂.1.stack.trans (by rw [hg₁.stack]))

theorem step_keywordInvoke {e : Nat} {s : Slot} (hst : f.stack = s :: st) : step f (.keywordInvoke e) w =
    (keywordInvoke f.unit e s.toValue >>= fun v => pure (Action.next { f with stack := .obj v :: st })) w := by
  simp only [step, stepData, popValue_cons hst, Run.ofExcept_ok, pure_bind, bind_assoc]
  rfl

theorem faithful_keywordInvoke (hi : S.Installed i) (key : Keyword) {e : Expr} (line : Nat) (he : S.Faithful i n e) :
    S.Faithful i n (.keywordInvoke key e line) := by
  intro bound scope loop head dest k ρ f w pc' hs hsc _ hr hl
  obtain ⟨p, _, _, _, hval, _, hcode, _⟩ := hl
  rw [Expr.meaning]
  simp only [bind_assoc, pure_bind]
  refine (realizes_operand (q := none) he hsc hr hval).bind fun s g w' _ hreach hg => ?_
  refine realizes_last .obj hi hr.method hg hcode ?_
  rw [← (hr.comes hg hreach.code_eq).unit]
  exact step_keywordInvoke (f := { g with pc := g.pc + 1 }) hg.stack

theorem step_protocolInvoke {e : Nat} {ss : List Slot} (hst : f.stack = ss.reverse ++ st) :
    step f (.protocolInvoke e ss.length) w = (protocolInvoke f.unit e (ss.map Slot.toValue) >>= fun a =>
      pure (Action.ofAnswer { f with stack := st } a)) w := by
  simp only [step, popValues_append f hst, Run.ofExcept_ok, pure_bind]

theorem faithful_protocolInvoke (hi : S.Installed i) (v : VarRef) {args : List Expr} (line : Nat)
    (hes : ∀ e ∈ args, S.Faithful i n e) : S.Faithful i n (.protocolInvoke v args line) := by
  intro bound scope loop head dest k ρ f w pc' hs hsc _ hr hl
  obtain ⟨p, _, _, _, hargs, _, hcode, _⟩ := hl
  rw [Expr.meaning]
  simp only [bind_assoc, pure_bind]
  refine (realizes_args hes hsc hr hargs).bind fun ss g w' _ hreach hg => ?_
  refine realizes_lastCall hi hr.method hg.1 hcode ?_
  rw [← hg.2, ← (hr.comes hg.1 hreach.code_eq).unit]
  exact step_protocolInvoke (f := { g with pc := g.pc + 1 }) hg.1.stack

/-! ## Host members -/

theorem step_invokeStatic {e : Nat} {m : HostMember} {ss : List Slot} (hst : f.stack = ss.reverse ++ st)
    (hm : f.memberAt w e = .ok m) : step f (.invokeStatic e ss.length) w =
      (Host.call m.op ss >>= fun s => pure (Action.next { f with stack := resultSlot m s :: st })) w := by
  simp only [step, stepHost, bind_assoc, pure_bind, Run.world_bind, hm, popMany_append f hst, Run.ofExcept_ok]
  rfl

theorem step_invokeStaticReflective {e e' : Nat} {id : ClassId} {className name : String} {ss : List Slot}
    (hst : f.stack = ss.reverse ++ st) (hc : f.classAt w e = .ok (id, className)) (hn : f.nameAt w e' = .ok name) :
    step f (.invokeStaticReflective e e' ss.length) w = (invokeStatic className name (ss.map Slot.toValue) >>= fun v =>
      pure (Action.next { f with stack := .obj v :: st })) w := by
  simp only [step, stepHost, bind_assoc, pure_bind, Run.world_bind, hc, hn, popValues_append f hst, Run.ofExcept_ok]
  rfl

theorem faithful_staticCall (hi : S.Installed i) (className name : String) (member : Option HostRef) {args : List Expr}
    (line : Nat) (hes : ∀ e ∈ args, S.Faithful i n e) : S.Faithful i n (.staticCall className name member args line) := by
  intro bound scope loop head dest k ρ f w pc' hs hsc _ hr hl
  obtain ⟨p, _, _, _, hargs, hprov, hcode, _⟩ := hl
  rw [Expr.meaning]
  simp only [bind_assoc]
  refine (realizes_args hes hsc hr hargs).bind fun ss g w' _ hreach hg => ?_
  have hr' := hr.comes hg.1 hreach.code_eq
  rw [← hg.2] at hcode
  cases member with
  | some m =>
    obtain ⟨h, hh, _, _⟩ := (hi.answers _ _ (hprov 0 _ rfl)).host
    simp only [Activation.member?_eq (k := k + (needsAll args).length) hh, bind_assoc, pure_bind]
    exact realizes_last (resultSlot h) hi hr.method hg.1 hcode
      (step_invokeStatic (f := { g with pc := g.pc + 1 }) hg.1.stack ((hr'.moved _ _).memberAt hh))
  | none =>
    obtain ⟨id, className', hc⟩ := (hi.answers _ _ (hprov 0 _ rfl)).type
    have hn := (hi.answers _ _ (hprov 1 _ rfl)).text
    simp only [Activation.type_eq (k := k + (needsAll args).length) hc, bind_assoc, pure_bind]
    exact realizes_last .obj hi hr.method hg.1 hcode (step_invokeStaticReflective
      (f := { g with pc := g.pc + 1 }) hg.1.stack ((hr'.moved _ _).classAt hc) ((hr'.moved _ _).nameAt hn))

theorem step_invokeVirtual {e : Nat} {m : HostMember} {s : Slot} {ss : List Slot} (hst : f.stack = ss.reverse ++ s :: st)
    (hm : f.memberAt w e = .ok m) : step f (.invokeVirtual e ss.length) w =
      (Activation.callVirtual m (s :: ss) >>= fun s => pure (Action.next { f with stack := s :: st })) w := by
  have hst' : f.stack = (s :: ss).reverse ++ st := by rw [hst, List.reverse_cons, List.append_assoc]; rfl
  have hp := popMany_append f hst'
  rw [List.length_cons] at hp
  simp only [step, stepHost, bind_assoc, pure_bind, Run.world_bind, hm, hp, Run.ofExcept_ok, Activation.callVirtual,
    List.head?_cons]
  have called : ((Host.call m.op (s :: ss) >>= fun a => pure (Frame.push { f with stack := st } (resultSlot m a))) >>=
        fun g => pure (Action.next g)) w =
      ((Host.call m.op (s :: ss) >>= fun a => pure (resultSlot m a)) >>= fun a =>
        pure (Action.next { f with stack := a :: st })) w := by
    simp only [bind_assoc, pure_bind]
    rfl
  rcases s with v | _ | _ | _ | _ | _
  · cases v <;> first | rfl | exact called
  all_goals exact called

theorem step_invokeReflective {e : Nat} {name : String} {s : Slot} {ss : List Slot} (hst : f.stack = ss.reverse ++ s :: st)
    (hn : f.nameAt w e = .ok name) : step f (.invokeReflective e ss.length) w =
      (invokeMethod s.toValue name (ss.map Slot.toValue) >>= fun a => pure (Action.ofAnswer { f with stack := st } a)) w := by
  simp only [step, Run.world_bind, hn, popValues_append f hst, Run.ofExcept_ok, pure_bind,
    popValue_cons (f := { f with stack := s :: st }) rfl]

theorem faithful_methodCall (hi : S.Installed i) {e : Expr} (name : String) (member : Option HostRef) {args : List Expr}
    (line : Nat) (he : S.Faithful i n e) (hes : ∀ e ∈ args, S.Faithful i n e) :
    S.Faithful i n (.methodCall e name member args line) := by
  intro bound scope loop head dest k ρ f w pc' hs hsc _ hr hl
  obtain ⟨p₁, _, _, _, hval, p₂, _, _, _, hargs, hprov, hcode, _⟩ := hl
  rw [Expr.meaning]
  simp only [bind_assoc]
  refine (realizes_operand (q := none) he hsc.1 hr hval).bind fun s g₁ w₁ _ hreach₁ hg₁ => ?_
  have hr₁ := hr.comes hg₁ hreach₁.code_eq
  rw [← hg₁.pc] at hargs
  refine (realizes_args hes hsc.2 hr₁ hargs).bind fun ss g₂ w₂ _ hreach₂ hg₂ => ?_
  have hr₂ := hr₁.comes hg₂.1 hreach₂.code_eq
  have hg := hg₁.trans hg₂.1
  rw [hg₁.stack] at hg
  rw [← hg₂.2] at hcode
  cases member with
  | some m =>
    obtain ⟨h, hh, _, _⟩ := (hi.answers _ _ (hprov 0 _ rfl)).host
    simp only [Activation.member?_eq (k := k + (needs e).length + (needsAll args).length) hh, bind_assoc, pure_bind]
    exact realizes_last id hi hr.method hg hcode
      (step_invokeVirtual (f := { g₂ with pc := g₂.pc + 1 }) hg.stack ((hr₂.moved _ _).memberAt hh))
  | none =>
    have hn := (hi.answers _ _ (hprov 0 _ rfl)).text
    simp only [bind_assoc, pure_bind]
    exact realizes_lastCall hi hr.method hg hcode
      (step_invokeReflective (f := { g₂ with pc := g₂.pc + 1 }) hg.stack ((hr₂.moved _ _).nameAt hn))

theorem step_getStatic {e : Nat} {m : HostMember} (hm : f.memberAt w e = .ok m) : step f (.getStatic e) w =
    (Host.call m.op [] >>= fun s => pure (Action.next { f with stack := resultSlot m s :: f.stack })) w := by
  simp only [step, stepData, bind_assoc, pure_bind, Run.world_bind, hm, Run.ofExcept_ok]
  rfl

theorem faithful_staticField (hi : S.Installed i) (className : String) (member : HostRef) :
    S.Faithful i n (.staticField className member) := by
  intro bound scope loop head dest k ρ f w pc' hs _ _ hr hl
  obtain ⟨hprov, hcode, _⟩ := hl
  obtain ⟨h, hh, _, _⟩ := (hi.answers _ _ (hprov 0 _ rfl)).host
  rw [Expr.meaning]
  simp only [Activation.member?_eq (k := k) hh, bind_assoc, pure_bind]
  exact realizes_last (resultSlot h) hi hr.method (Comes.refl bound f) hcode (step_getStatic ((hr.moved _ _).memberAt hh))

theorem step_getField {e index : Nat} {id : ClassId} {name : String} {s : Slot} (hst : f.stack = s :: st)
    (hc : f.classAt w e = .ok (id, name)) : step f (.getField e index) w =
      (Activation.knownField (id, name) index s.toValue >>= fun s => pure (Action.next { f with stack := s :: st })) w := by
  simp only [step, stepData, bind_assoc, pure_bind, Run.world_bind, hc, popValue_cons hst, Run.ofExcept_ok,
    Activation.knownField]
  cases s.toValue with
  | inst obj own _ =>
    dsimp only
    split <;> rfl
  | _ => rfl

theorem step_getFieldReflective {e : Nat} {name : String} {s : Slot} (hst : f.stack = s :: st)
    (hn : f.nameAt w e = .ok name) : step f (.getFieldReflective e) w =
      (getField s.toValue name >>= fun a => pure (Action.ofAnswer { f with stack := st } a)) w := by
  simp only [step, Run.world_bind, hn, Run.ofExcept_ok, pure_bind, popValue_cons hst]

theorem faithful_fieldGet (hi : S.Installed i) {e : Expr} (name : String) (field : Option FieldRef) (line : Nat)
    (he : S.Faithful i n e) : S.Faithful i n (.fieldGet e name field line) := by
  intro bound scope loop head dest k ρ f w pc' hs hsc _ hr hl
  obtain ⟨p, _, _, _, hval, hprov, hcode, _⟩ := hl
  rw [Expr.meaning]
  simp only [bind_assoc]
  refine (realizes_operand (q := none) he hsc.1 hr hval).bind fun s g w' _ hreach hg => ?_
  have hr' := hr.comes hg hreach.code_eq
  cases field with
  | some r =>
    obtain ⟨type, name', hc⟩ := (hi.answers _ _ (hprov 0 _ rfl)).type
    simp only [Activation.type_eq (k := k + (needs e).length) hc, bind_assoc, pure_bind]
    exact realizes_last id hi hr.method hg hcode
      (step_getField (f := { g with pc := g.pc + 1 }) hg.stack ((hr'.moved _ _).classAt hc))
  | none =>
    have hn := (hi.answers _ _ (hprov 0 _ rfl)).text
    simp only [bind_assoc, pure_bind]
    exact realizes_lastCall hi hr.method hg hcode
      (step_getFieldReflective (f := { g with pc := g.pc + 1 }) hg.stack ((hr'.moved _ _).nameAt hn))

theorem step_new {e : Nat} {m : HostMember} {ss : List Slot} (hst : f.stack = ss.reverse ++ st)
    (hm : f.memberAt w e = .ok m) : step f (.new e ss.length) w =
      (Host.call m.op ss >>= fun s => pure (Action.next { f with stack := s :: st })) w := by
  simp only [step, stepHost, bind_assoc, pure_bind, Run.world_bind, hm, popMany_append f hst, Run.ofExcept_ok]
  rfl

theorem step_newReflective {e : Nat} {id : ClassId} {name : String} {ss : List Slot} (hst : f.stack = ss.reverse ++ st)
    (hc : f.classAt w e = .ok (id, name)) : step f (.newReflective e ss.length) w =
      (construct id (ss.map Slot.toValue) >>= fun v => pure (Action.next { f with stack := .obj v :: st })) w := by
  simp only [step, stepHost, bind_assoc, pure_bind, Run.world_bind, hc, popValues_append f hst, Run.ofExcept_ok]
  rfl

theorem faithful_construct (hi : S.Installed i) (className : String) (member : Option HostRef) (declared : Bool)
    {args : List Expr} (line : Nat) (hes : ∀ e ∈ args, S.Faithful i n e) :
    S.Faithful i n (.construct className member declared args line) := by
  intro bound scope loop head dest k ρ f w pc' hs hsc _ hr hl
  obtain ⟨p, _, _, _, hargs, hprov, hcode, _⟩ := hl
  rw [Expr.meaning]
  simp only [bind_assoc]
  refine (realizes_args hes hsc hr hargs).bind fun ss g w' _ hreach hg => ?_
  have hr' := hr.comes hg.1 hreach.code_eq
  rw [← hg.2] at hcode
  cases hm : ctorOf member declared with
  | some m =>
    rw [hm] at hprov hcode
    obtain ⟨h, hh, _, _⟩ := (hi.answers _ _ (hprov 0 _ rfl)).host
    simp only [Activation.member?_eq (k := k + (needsAll args).length) hh, bind_assoc, pure_bind]
    exact realizes_last id hi hr.method hg.1 hcode
      (step_new (f := { g with pc := g.pc + 1 }) hg.1.stack ((hr'.moved _ _).memberAt hh))
  | none =>
    rw [hm] at hprov hcode
    obtain ⟨id, name, hc⟩ := (hi.answers _ _ (hprov 0 _ rfl)).type
    simp only [Activation.type_eq (k := k + (needsAll args).length) hc, bind_assoc, pure_bind]
    refine realizes_last .obj hi hr.method hg.1 hcode ?_
    rw [constructCode]
    split
    · exact step_newInstance (f := { g with pc := g.pc + 1 }) hg.1.stack ((hr'.moved _ _).classAt hc)
    · exact step_newReflective (f := { g with pc := g.pc + 1 }) hg.1.stack ((hr'.moved _ _).classAt hc)

end LispMachine.Machine
