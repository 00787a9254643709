import LispMachine.Machine.Execute
import LispMachine.Proofs.Emit.Tails
/-!
# Where exceptions go

The handlers of a method are tried in order; each takes the exceptions of its classes that are thrown in its
range.  In the code of a `try` only its own handlers matter (`Installed`).  An exception of the body goes to the
first clause that catches it, or else to the cleanup; one of a clause goes to the cleanup; nothing is caught in
the cleanup and behind it.
-/
namespace LispMachine

/-- The class of this name is that of the value, or one that it inherits from. -/
def World.catches (w : World) (type : String) (t : Value) : Bool :=
  match w.classes.lookup? type with
  | some c => w.isInstance t c.id
  | none => false

/-- The first clause that catches the exception. -/
def Emit.TryCode.clauseFor? (T : TryCode) (w : World) (t : Value) : Option CatchCode := T.catches.find? fun c => w.catches c.type t

namespace Machine

open Emit
open LispMachine.Expr (Fitted FittedOption FittedHandlers)

/-! ## Handlers -/

/-- If no element gives anything else, the element that gives this is enough. -/
theorem findSome?_eq_of_mem {α β : Type} {f : α → Option β} {l : List α} {a : α} {b : β} (ha : a ∈ l) (hb : f a = some b)
    (hl : ∀ x ∈ l, f x = none ∨ f x = some b) : l.findSome? f = some b := by
  induction l with
  | nil => cases ha
  | cons x l ih =>
    rw [List.findSome?_cons]
    rcases hl x List.mem_cons_self with hx | hx
    · rcases List.mem_cons.1 ha with rfl | ha
      · rw [hb] at hx
        cases hx
      · rw [hx]
        exact ih ha fun y hy => hl y (List.mem_cons_of_mem _ hy)
    · rw [hx]

/-- Where the handler takes an exception. -/
def leadsTo? (w : World) (m : Method) (pc : Nat) (t : Value) (h : Handler) : Option Nat := do
  let start ← m.labelPc? h.start
  let stop ← m.labelPc? h.stop
  if pc < start || stop ≤ pc then none
  else
    let matching := match h.catches with
      | none => true
      | some name => w.catches name t
    if matching then m.labelPc? h.target else none

theorem handlerFor?_eq (w : World) (m : Method) (pc : Nat) (t : Value) : handlerFor? w m pc t = m.handlers.findSome? (leadsTo? w m pc t) := rfl

section

variable {w : World} {m : Method} {pc s e : Nat} {t : Value} {start stop target : Label} {type : String} {catches : Option String}

theorem leadsTo?_outside (hs : m.labelPc? start = some s) (he : m.labelPc? stop = some e) (h : pc < s ∨ e ≤ pc) :
    leadsTo? w m pc t ⟨start, stop, target, catches⟩ = none := by
  simp only [leadsTo?, hs, he, Option.bind_eq_bind, Option.bind_some]
  rw [if_pos]
  simpa using h

theorem leadsTo?_all (hs : m.labelPc? start = some s) (he : m.labelPc? stop = some e) (hlo : s ≤ pc) (hhi : pc < e) :
    leadsTo? w m pc t ⟨start, stop, target, none⟩ = m.labelPc? target := by
  simp only [leadsTo?, hs, he, Option.bind_eq_bind, Option.bind_some]
  rw [if_neg (by simp; omega)]
  rfl

theorem leadsTo?_clause (hs : m.labelPc? start = some s) (he : m.labelPc? stop = some e) (hlo : s ≤ pc) (hhi : pc < e) :
    leadsTo? w m pc t ⟨start, stop, target, some type⟩ = if w.catches type t then m.labelPc? target else none := by
  simp only [leadsTo?, hs, he, Option.bind_eq_bind, Option.bind_some]
  rw [if_neg (by simp; omega)]

theorem leadsTo?_apart {img : Image} {p p' : Nat} {h : Handler} (ha : Apart img p p' h) (hlo : p ≤ pc) (hhi : pc < p') :
    leadsTo? w img.method pc t h = none := by
  obtain ⟨s, e, hs, he, ha⟩ := ha
  exact leadsTo?_outside hs he (by omega)

end

/-! ## The handlers of a `try` -/

/-- The code of a `try` that gives the result of its method.  Its parts are fitted, and the handlers around it
are for other pieces. -/
structure Installed (good : CompiledUnit → Prop) (img : Image) (entry : Nat → Nat) (env : EmitEnv) (room : Room) (body : Expr)
    (handlers : List (String × Nat × Expr)) (cleanup : Option Expr) (T : TryCode) (pc pc' : Nat) : Prop where
  stands : T.Stands img entry env .result body handlers cleanup T.resultSlot T.thrownSlot pc pc'
  method : room.method = some env.frame
  slots : T.resultSlot < T.thrownSlot
  body : Fitted good env.context (room.above (T.thrownSlot + 1)) none false body
  handlers : FittedHandlers good env.context (room.above (T.thrownSlot + 1)).handling handlers
  cleanup : FittedOption good env.context (room.above (T.thrownSlot + 1)).handling cleanup
  table : ∃ before after, img.method.handlers = before ++ T.table ++ after ∧ ∀ h ∈ before ++ after, Apart img pc pc' h

section

variable {good : CompiledUnit → Prop} {img : Image} {entry : Nat → Nat} {env : EmitEnv} {room : Room} {body : Expr}
variable {handlers : List (String × Nat × Expr)} {cleanup : Option Expr} {T : TryCode} {pc pc' q : Nat} {w : World} {t : Value}

/-- Only the handlers of the `try` itself matter in its code. -/
theorem Installed.handlerFor?_eq_table (hT : Installed good img entry env room body handlers cleanup T pc pc') (hlo : pc ≤ q) (hhi : q < pc') :
    handlerFor? w img.method q t = T.table.findSome? (leadsTo? w img.method q t) := by
  obtain ⟨before, after, he, hapart⟩ := hT.table
  have hnone : ∀ h ∈ before ++ after, leadsTo? w img.method q t h = none := fun h hh => leadsTo?_apart (hapart h hh) hlo hhi
  have hbefore : before.findSome? (leadsTo? w img.method q t) = none :=
    List.findSome?_eq_none_iff.2 fun h hh => hnone h (List.mem_append_left _ hh)
  have hafter : after.findSome? (leadsTo? w img.method q t) = none :=
    List.findSome?_eq_none_iff.2 fun h hh => hnone h (List.mem_append_right _ hh)
  rw [handlerFor?_eq, he, List.findSome?_append, List.findSome?_append, hbefore, hafter, Option.none_or, Option.or_none]

/-- A clause takes the exceptions of its class to its start. -/
theorem findSome?_clauses {m : Method} {s e : Nat} {start stop : Label} (hs : m.labelPc? start = some s) (he : m.labelPc? stop = some e)
    (hlo : s ≤ q) (hhi : q < e) {cs : List CatchCode} (ht : ∀ c ∈ cs, m.labelPc? c.target = some c.entry) :
    (cs.map fun c => (⟨start, stop, c.target, some c.type⟩ : Handler)).findSome? (leadsTo? w m q t) =
      (cs.find? fun c => w.catches c.type t).map (·.entry) := by
  induction cs with
  | nil => rfl
  | cons c cs ih =>
    rw [List.map_cons, List.findSome?_cons, leadsTo?_clause hs he hlo hhi, List.find?_cons]
    cases hc : w.catches c.type t with
    | true =>
      rw [if_pos rfl, ht c List.mem_cons_self]
      rfl
    | false =>
      rw [if_neg Bool.false_ne_true]
      exact ih fun c hc => ht c (List.mem_cons_of_mem _ hc)

theorem Installed.target_eq (hT : Installed good img entry env room body handlers cleanup T pc pc') :
    ∀ c ∈ T.catches, img.method.labelPc? c.target = some c.entry := by
  obtain ⟨_, _, _, hcatches, _⟩ := hT.stands.parts
  intro c hc
  obtain ⟨_, _, _, _, hstands, _⟩ := hcatches.mem CatchCode.Stands.le c hc
  exact hstands.target

theorem Installed.entry_le (hT : Installed good img entry env room body handlers cleanup T pc pc') :
    ∀ {c : CatchCode}, c ∈ T.catches → c.entry ≤ c.body.entry := by
  obtain ⟨_, _, _, hcatches, _⟩ := hT.stands.parts
  intro c hc
  obtain ⟨_, _, _, _, hstands, _⟩ := hcatches.mem CatchCode.Stands.le c hc
  exact Nat.le_of_succ_le (Nat.le_of_eq hstands.next.symm)

/-- An exception of the body goes to the first clause that catches it, or else to the cleanup. -/
theorem Installed.handlerFor?_body (hT : Installed good img entry env room body handlers cleanup T pc pc') (hlo : T.body.entry ≤ q)
    (hhi : q ≤ T.body.exit) :
    handlerFor? w img.method q t = ((T.clauseFor? w t).map (·.entry)).or (T.rethrow.map (·.entry)) := by
  obtain ⟨p, p', hmain, hcatches, hp, hp', hrethrow⟩ := hT.stands.parts
  have hbody := hmain.body_lt
  rw [hT.handlerFor?_eq_table (hT.stands.entry ▸ hlo) (by omega), TryCode.table, List.findSome?_append,
    findSome?_clauses hT.stands.start hmain.stop hlo (by omega) hT.target_eq]
  refine congrArg _ ?_
  cases hr : T.rethrow with
  | none => rfl
  | some r =>
    show List.findSome? _ (_ :: _) = some r.entry
    rw [List.findSome?_cons, leadsTo?_all hT.stands.start hmain.stop hlo (by omega), (hrethrow r hr).target]

/-- Nothing is caught behind the body and outside the clauses. -/
theorem Installed.handlerFor?_quiet (hT : Installed good img entry env room body handlers cleanup T pc pc') (hlo : T.body.exit < q) (hhi : q < pc')
    (hout : ∀ c ∈ T.catches, q < c.entry ∨ c.body.exit < q) : handlerFor? w img.method q t = none := by
  obtain ⟨p, p', hmain, hcatches, hp, hp', hrethrow⟩ := hT.stands.parts
  have hforward := hT.stands.forward
  have hentry := hT.stands.entry
  have hmainOut : ∀ {target : Label} {type : Option String}, leadsTo? w img.method q t ⟨T.start, T.stop, target, type⟩ = none :=
    leadsTo?_outside hT.stands.start hmain.stop (.inr hlo)
  rw [hT.handlerFor?_eq_table (by omega) hhi, List.findSome?_eq_none_iff]
  intro h hh
  rcases List.mem_append.1 hh with hh | hh
  · obtain ⟨c, _, rfl⟩ := List.mem_map.1 hh
    exact hmainOut
  · cases hr : T.rethrow with
    | none =>
      rw [hr] at hh
      cases hh
    | some r =>
      rw [hr] at hh
      rcases List.mem_cons.1 hh with rfl | hh
      · exact hmainOut
      · obtain ⟨c, hc, rfl⟩ := List.mem_map.1 hh
        obtain ⟨_, _, _, _, hstands, _⟩ := hcatches.mem CatchCode.Stands.le c hc
        exact leadsTo?_outside hstands.target hstands.concludes.stop (hout c hc)

/-- An exception of a clause goes to the cleanup. -/
theorem Installed.handlerFor?_clause (hT : Installed good img entry env room body handlers cleanup T pc pc') {c : CatchCode} (hc : c ∈ T.catches)
    (hlo : c.entry ≤ q) (hhi : q ≤ c.body.exit) : handlerFor? w img.method q t = T.rethrow.map (·.entry) := by
  obtain ⟨p, p', hmain, hcatches, hp, hp', hrethrow⟩ := hT.stands.parts
  obtain ⟨_, _, z, z', hstands, hz, hz', hothers⟩ := hcatches.others CatchCode.Stands.le c hc
  have hbody := hmain.body_lt
  have hin := hstands.concludes.body_lt
  have hforward := hT.stands.forward
  have hentry := hT.stands.entry
  have hstart := hstands.entry
  have hmainOut : ∀ {target : Label} {type : Option String}, leadsTo? w img.method q t ⟨T.start, T.stop, target, type⟩ = none :=
    leadsTo?_outside hT.stands.start hmain.stop (.inr (by omega))
  rw [hT.handlerFor?_eq_table (by omega) (by omega), TryCode.table, List.findSome?_append,
    List.findSome?_eq_none_iff.2 fun h hh => (by obtain ⟨c, _, rfl⟩ := List.mem_map.1 hh; exact hmainOut), Option.none_or]
  cases hr : T.rethrow with
  | none => rfl
  | some r =>
    show List.findSome? _ (_ :: _) = some r.entry
    rw [List.findSome?_cons, hmainOut]
    -- the clause itself leads to the cleanup, and no clause leads elsewhere
    have hown : leadsTo? w img.method q t ⟨c.target, c.stop, r.target, none⟩ = some r.entry := by
      rw [leadsTo?_all hstands.target hstands.concludes.stop hlo (by omega), (hrethrow r hr).target]
    have hany : ∀ c' ∈ T.catches, leadsTo? w img.method q t ⟨c'.target, c'.stop, r.target, none⟩ = none ∨
        leadsTo? w img.method q t ⟨c'.target, c'.stop, r.target, none⟩ = some r.entry := by
      intro c' hc'
      rcases hothers c' hc' with rfl | ⟨_, y, y', hstands', hapart⟩
      · exact .inr hown
      · have hin' := hstands'.concludes.body_lt
        have hstart' := hstands'.entry
        exact .inl (leadsTo?_outside hstands'.target hstands'.concludes.stop (by omega))
    exact findSome?_eq_of_mem (List.mem_map_of_mem hc) hown (List.forall_mem_map.2 hany)

end

end Machine

end LispMachine
