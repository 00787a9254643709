import LispMachine.Class.Table
import LispMachine.Host.Call
import LispMachine.Proofs.Run.Returns
/-!
# The kinds of host results

Compiled code trusts the signature of a host member: a result that is declared primitive is used without a
check.  The members of the library are as they declare (`typed_membersOf`), and so are all members that a class
table finds (`ClassTable.Typed`).
-/
namespace LispMachine

/-- The results of the member are of the kind that it declares. -/
def HostMember.Typed (m : HostMember) : Prop := ∀ (p : Prim) (args : List Slot) (w : World) (s : Slot) (w' : World),
  m.ret = .prim p → Host.call m.op args w = (.value s, w') → s.prim? = some p

/-- The kind of what an operation gives; none if it is boxed. -/
def HostOp.kind : HostOp → Option Prim
  | .arith _ .long | .inc .long | .dec .long => some .long
  | .arith _ .double | .inc .double | .dec .double => some .double
  | .compare .. | .sign .. | .booleanCast | .equiv _ | .identical | .equals | .isNaN | .isEmpty | .startsWith
  | .endsWith | .contains => some .bool
  | .divideDouble | .doubleCastDouble | .doubleCast | .pi | .e | .absDouble | .maxDouble | .minDouble | .sqrt | .pow
  | .floor | .doubleMax | .parseDouble => some .double
  | .quotientLong | .remainderLong | .longCastLong | .longCast | .absLong | .maxLong | .minLong | .longMax
  | .longMin | .parseLong | .currentTimeMillis | .nanoTime => some .long
  | .intCastLong | .intCast | .hasheq | .hashCode | .count | .intMax | .intMin | .length | .indexOf
  | .builderLength => some .int
  | _ => none

namespace Host

/-! ## Results of operations -/

/-- The result, if there is one, is of the kind. -/
def Gives (k : Option Prim) (x : Except Failure Slot) : Prop := ∀ s, x = .ok s → s.prim? = k

variable {k : Option Prim} {α : Type}

theorem gives_ok {s : Slot} (h : s.prim? = k) : Gives k (.ok s) := by
  intro s' he
  cases he
  exact h

theorem gives_error (f : Failure) : Gives k (.error f) := fun _ he => by cases he

theorem gives_bind {x : Except Failure α} {f : α → Except Failure Slot} (hf : ∀ a, Gives k (f a)) : Gives k (x >>= f) := by
  intro s he
  cases x with
  | error e => cases he
  | ok a => exact hf a s he

theorem gives_unbox (v : Value) (p : Prim) : Gives (some p) (Slot.unbox v p) := by
  unfold Slot.unbox
  split
  · split
    · exact gives_ok rfl
    · exact gives_error _
  · refine gives_bind fun n => ?_
    split <;> exact gives_ok rfl
  · refine gives_bind fun n => ?_
    split <;> exact gives_ok rfl
  · exact gives_bind fun n => gives_ok rfl
  · exact gives_bind fun n => gives_ok rfl

theorem gives_calculate (op : HostOp) (args : List Slot) : Gives op.kind (calculate op args) := by
  unfold calculate
  split <;> first
    | exact gives_ok rfl
    | exact gives_unbox _ _
    | exact gives_error _
    | exact gives_bind fun _ => gives_ok rfl
    | exact gives_bind fun _ => gives_bind fun _ => gives_ok rfl
    | exact gives_bind fun _ => gives_bind fun _ => gives_bind fun _ => gives_ok rfl
    | skip
  -- what is left asks about its arguments first
  all_goals
    refine gives_bind fun _ => ?_
    split
  all_goals first
    | exact gives_ok rfl
    | exact gives_error _
    | exact gives_bind fun _ => gives_bind fun _ => gives_ok rfl

theorem gives_textual (op : HostOp) (args : List Slot) : Gives op.kind (textual op args) := by
  unfold textual
  split
  case h_1 | h_2 =>
    refine gives_bind fun _ => ?_
    split
    · exact gives_ok rfl
    · exact gives_error _
  case h_3 | h_4 | h_5 | h_6 | h_7 => exact gives_bind fun _ => gives_ok rfl
  case h_8 => exact gives_bind fun _ => gives_bind fun _ => gives_bind fun _ => gives_ok rfl
  case h_9 =>
    refine gives_bind fun _ => gives_bind fun _ => gives_bind fun _ => gives_bind fun _ => gives_bind fun _ => ?_
    split
    · exact gives_error _
    · exact gives_ok rfl
  case h_10 =>
    refine gives_bind fun _ => gives_bind fun _ => ?_
    split
    · exact gives_ok rfl
    · exact gives_error _
  case h_11 =>
    refine gives_bind fun _ => gives_bind fun _ => ?_
    split <;> exact gives_ok rfl
  case h_12 | h_13 | h_14 | h_15 => exact gives_bind fun _ => gives_bind fun _ => gives_ok rfl
  case h_16 => exact gives_calculate _ _

/-! ## Results of members -/

/-- The value, if the run ends with one, is of the kind. -/
def OfKind (k : Option Prim) (x : Run Slot) : Prop := Run.Returns x (·.prim? = k)

open Run

theorem ofKind_newBuilder (text : String) : OfKind none (newBuilder text) := by
  intro w s w' he
  cases he
  rfl

theorem ofKind_newException (type : ClassId) (message : Option String) (data : Value) :
    OfKind none (newException type message data) :=
  returns_then _ fun _ => returns_pure rfl

theorem ofKind_call (op : HostOp) (args : List Slot) : OfKind op.kind (call op args) := by
  unfold call
  split
  case h_1 | h_2 | h_3 | h_4 | h_5 => exact returns_then _ fun _ => returns_pure rfl
  case h_6 => exact ofKind_newBuilder _
  case h_7 => exact returns_then _ fun _ => ofKind_newBuilder _
  case h_8 => exact returns_then _ fun _ => returns_then _ fun _ => returns_then _ fun _ => returns_pure rfl
  case h_9 => exact returns_then _ fun _ => returns_then _ fun _ => returns_pure rfl
  case h_10 => exact ofKind_newException _ _ _
  case h_11 | h_12 => exact returns_then _ fun _ => ofKind_newException _ _ _
  case h_13 | h_14 =>
    split
    · exact returns_pure rfl
    · exact returns_raise _
  case h_15 => exact returns_then _ fun _ => returns_pure rfl
  case h_16 => exact returns_ofExcept (gives_textual _ _)

/-! ## Members of the library -/

/-- The operation of the member gives what the member declares. -/
def declaresKind (m : HostMember) : Bool :=
  match m.ret with
  | .prim p => m.op.kind == some p
  | _ => true

theorem typed_of_declaresKind {m : HostMember} (h : declaresKind m = true) : m.Typed := by
  intro p args w s w' hr hc
  simp only [declaresKind, hr, beq_iff_eq] at h
  rw [ofKind_call m.op args w s w' hc, h]

theorem declaresKind_exceptionMembers (id : ClassId) : (exceptionMembers id).all declaresKind = true := by
  unfold exceptionMembers
  simp only [List.all_append, Bool.and_eq_true]
  constructor
  · split
    · rfl
    · split <;> rfl
  · split <;> rfl

theorem declaresKind_membersOf (id : ClassId) : (membersOf id).all declaresKind = true := by
  have choose : ∀ {c : Prop} [Decidable c] {xs ys : List HostMember}, xs.all declaresKind = true →
      ys.all declaresKind = true → (if c then xs else ys).all declaresKind = true := by
    intro c _ xs ys hx hy
    by_cases hc : c
    · rw [if_pos hc]
      exact hx
    · rw [if_neg hc]
      exact hy
  unfold membersOf
  iterate 11 refine choose (by decide) ?_
  exact choose (declaresKind_exceptionMembers id) rfl

theorem typed_membersOf (id : ClassId) : ∀ m ∈ membersOf id, m.Typed := fun m hm =>
  typed_of_declaresKind (List.all_eq_true.1 (declaresKind_membersOf id) m hm)

end Host

/-! ## Class tables -/

namespace ClassTable

/-- All members of the classes are as they declare. -/
def Typed (t : ClassTable) : Prop := ∀ (id : ClassId) (c : Class), t.get? id = some c → ∀ m ∈ c.members, m.Typed

variable {t : ClassTable}

theorem mem_addOverloads {m : HostMember} : ∀ {more found : List HostMember}, m ∈ addOverloads found more → m ∈ found ∨ m ∈ more
  | [], _, h => .inl h
  | m' :: more, found, h => by
    rw [addOverloads, List.foldl_cons] at h
    obtain h | h := mem_addOverloads h
    · split at h
      · exact .inl h
      · rcases List.mem_append.1 h with h | h
        · exact .inl h
        · exact .inr (List.mem_cons.2 (.inl (List.mem_singleton.1 h)))
    · exact .inr (List.mem_cons_of_mem _ h)

theorem Typed.findMembersWithin (ht : t.Typed) {kind : HostKind} {name : String} : ∀ (n : Nat) {c : Class},
    (∀ m ∈ c.members, m.Typed) → ∀ m ∈ t.findMembersWithin n c kind name, m.Typed
  | 0, c, hc, m, hm => hc m (List.mem_filter.1 hm).1
  | n + 1, c, hc, m, hm => by
    have hown : ∀ m ∈ c.membersNamed kind name, m.Typed := fun m hm => hc m (List.mem_filter.1 hm).1
    rw [ClassTable.findMembersWithin] at hm
    split at hm
    · -- the members found so far are typed at every step of the fold
      revert hm
      generalize c.membersNamed kind name = found at hown
      induction c.supers generalizing found with
      | nil => exact hown m
      | cons s supers ih =>
        rw [List.foldl_cons]
        refine ih _ fun m hm => ?_
        split at hm
        · rename_i parent hp
          obtain hm | hm := mem_addOverloads hm
          · exact hown m hm
          · exact Typed.findMembersWithin ht n (ht s parent hp) m hm
        · exact hown m hm
    · exact hown m hm

theorem Typed.findMembers (ht : t.Typed) {c : Class} {id : ClassId} {kind : HostKind} {name : String}
    (hc : t.get? id = some c) : ∀ m ∈ t.findMembers c kind name, m.Typed :=
  ht.findMembersWithin _ (ht id c hc)

theorem get?_modify {f : Class → Class} {id id' : ClassId} {c : Class} (h : (t.modify id f).get? id' = some c) :
    ∃ c', t.get? id' = some c' ∧ (c = c' ∨ c = f c') := by
  unfold get? modify at h
  rw [Array.getElem?_modify] at h
  unfold get?
  split at h
  · cases hc : t.byId[id']? with
    | none =>
      rw [hc] at h
      cases h
    | some o =>
      rw [hc] at h
      cases o with
      | none => cases h
      | some c' =>
        cases h
        exact ⟨c', rfl, .inr rfl⟩
  · exact ⟨c, h, .inl rfl⟩

theorem get?_insert {c c' : Class} {id : ClassId} (h : (t.insert c).get? id = some c') : c' = c ∨ t.get? id = some c' := by
  unfold get? insert at h
  rw [Array.getElem?_modify] at h
  split at h
  · cases hr : (reserve t.byId (c.id + 1))[id]? with
    | none =>
      rw [hr] at h
      cases h
    | some o =>
      rw [hr] at h
      cases h
      exact .inl rfl
  · unfold reserve at h
    rw [Array.getElem?_append] at h
    split at h
    · exact .inr h
    · rw [Array.getElem?_replicate] at h
      split at h <;> cases h

theorem Typed.modify (ht : t.Typed) {f : Class → Class} (hf : ∀ c, (f c).members = c.members) (id : ClassId) :
    (t.modify id f).Typed := by
  intro id' c hc
  obtain ⟨c', hc', rfl | rfl⟩ := get?_modify hc
  · exact ht id' c hc'
  · rw [hf]
    exact ht id' c' hc'

theorem Typed.insert (ht : t.Typed) {c : Class} (hc : ∀ m ∈ c.members, m.Typed) : (t.insert c).Typed := by
  intro id c' h
  obtain rfl | h := get?_insert h
  · exact hc
  · exact ht id c' h

theorem typed_initial : initial.Typed := by
  unfold initial
  have h₀ : Typed ⟨#[], []⟩ := fun id c h => by cases h
  generalize (⟨#[], []⟩ : ClassTable) = t at h₀
  induction ClassId.builtins generalizing t with
  | nil => exact h₀
  | cons b bs ih => exact ih _ (h₀.insert (Host.typed_membersOf b.1))

end ClassTable

end LispMachine
