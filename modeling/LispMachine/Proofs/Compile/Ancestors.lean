import LispMachine.Compile.PathTree
import Mathlib.Logic.Relation
/-!
# Nearest common ancestors

A tree of paths is built by adding nodes below nodes that exist (`PathTree.Built`).  So a node stands one level below its
parent, and the depth that it carries is the number of levels above it (`Layered`, `Layered.level`).  An ancestor of a node is
what a climb by the difference of their depths leads to (`Layered.above_iff`); hence of two ancestors of one node one stands
above the other.

The search goes up from the deeper of two nodes until it is on the level of the other one, which is such a climb, and then
from both (`Layered.commonAncestor?_eq`).  The climb loses no common ancestor (`Layered.common_climb`), and neither does a step
up from two different nodes of one level (`Layered.common_parent`).  So the search ends at the nearest common ancestor, or runs
out of parents because there is none (`nearest_commonAncestor?`).
-/
namespace LispMachine.PathTree

/-- The trees that are built by adding nodes, each of them a root or below a node that exists. -/
inductive Built : PathTree → Prop
  | empty : Built {}
  | add {t : PathTree} (kind : PathKind) {parent : Option Nat} (hp : ∀ p ∈ parent, p < t.nodes.size) (built : Built t) :
      Built (t.add kind parent).2

/-- The first node is the second one or one of its ancestors. -/
def Above (t : PathTree) (c a : Nat) : Prop := Relation.ReflTransGen (fun x p => t.parent? x = some p) a c

/-- The node stands so many levels below its root. -/
inductive Level (t : PathTree) : Nat → Nat → Prop
  | root {a : Nat} (h : t.parent? a = none) : Level t a 0
  | child {a p n : Nat} (h : t.parent? a = some p) (level : Level t p n) : Level t a (n + 1)

/-- The first node is the root of the tree of the second one. -/
def Root (t : PathTree) (r a : Nat) : Prop := t.Above r a ∧ t.parent? r = none

def Common (t : PathTree) (a b c : Nat) : Prop := t.Above c a ∧ t.Above c b

/-- A common ancestor that is deeper than every other one. -/
structure Nearest (t : PathTree) (a b c : Nat) : Prop where
  common : t.Common a b c
  deepest : ∀ d, t.Common a b d → d ≠ c → t.depth d < t.depth c

/-- The ancestor so many levels up. -/
def climb (t : PathTree) : Nat → Nat → Option Nat
  | 0, id => some id
  | n + 1, id => (t.parent? id).bind (climb t n)

/-- A node without parent is at the top, and any other node stands one level below its parent.  There are no more levels than
nodes. -/
structure Layered (t : PathTree) : Prop where
  top : ∀ a, t.parent? a = none → t.depth a = 0
  below : ∀ a p, t.parent? a = some p → t.depth a = t.depth p + 1
  few : ∀ a, t.depth a ≤ t.nodes.size

variable {t : PathTree} {a b c d p r s n : Nat}

/-! ## What adding a node does -/

theorem get?_add (t : PathTree) (kind : PathKind) (parent : Option Nat) (x : Nat) : (t.add kind parent).2.get? x =
    if x = t.nodes.size then some ⟨kind, parent, (parent.map (t.depth · + 1)).getD 0⟩ else t.get? x := by
  simp only [add, get?, Array.getElem?_push]
  cases parent <;> rfl

theorem parent?_add (t : PathTree) (kind : PathKind) (parent : Option Nat) (x : Nat) :
    (t.add kind parent).2.parent? x = if x = t.nodes.size then parent else t.parent? x := by
  rw [parent?, get?_add]
  split <;> rfl

theorem depth_add (t : PathTree) (kind : PathKind) (parent : Option Nat) (x : Nat) : (t.add kind parent).2.depth x =
    if x = t.nodes.size then (parent.map (t.depth · + 1)).getD 0 else t.depth x := by
  rw [depth, get?_add]
  split <;> rfl

theorem lt_of_parent? (h : t.parent? a = some p) : a < t.nodes.size := by
  refine Nat.lt_of_not_le fun hle => ?_
  rw [parent?, get?, Array.getElem?_eq_none hle] at h
  cases h

/-- A parent is older than its children. -/
theorem Built.parent_lt (h : t.Built) (hp : t.parent? a = some p) : p < a := by
  induction h with
  | empty => exact absurd (lt_of_parent? hp) (Nat.not_lt_zero a)
  | @add t kind parent hparent _ ih =>
    rw [parent?_add] at hp
    split at hp
    · rename_i ha
      exact ha ▸ hparent p hp
    · exact ih hp

theorem Built.lt_of_above (h : t.Built) (ha : a < t.nodes.size) (hc : t.Above c a) : c < t.nodes.size := by
  induction hc with
  | refl => exact ha
  | tail _ hp ih => exact Nat.lt_trans (h.parent_lt hp) ih

theorem Built.layered (h : t.Built) : t.Layered := by
  induction h with
  | empty => exact ⟨fun _ _ => rfl, fun a p hp => absurd (lt_of_parent? hp) (Nat.not_lt_zero a), fun _ => Nat.le_refl 0⟩
  | @add t kind parent hparent hbuilt ih =>
    refine ⟨fun a ha => ?_, fun a p ha => ?_, fun a => ?_⟩
    · rw [parent?_add] at ha
      rw [depth_add]
      split at ha
      · rename_i hnew
        rw [if_pos hnew, ha]
        rfl
      · rename_i hold
        rw [if_neg hold]
        exact ih.top a ha
    · rw [parent?_add] at ha
      rw [depth_add, depth_add]
      split at ha
      · rename_i hnew
        rw [if_pos hnew, if_neg (Nat.ne_of_lt (hparent p ha)), ha]
        rfl
      · rename_i hold
        have hlt : p < t.nodes.size := Nat.lt_trans (hbuilt.parent_lt ha) (lt_of_parent? ha)
        rw [if_neg hold, if_neg (Nat.ne_of_lt hlt)]
        exact ih.below a p ha
    · have hsize : (t.add kind parent).2.nodes.size = t.nodes.size + 1 := Array.size_push _
      rw [depth_add, hsize]
      split
      · cases parent with
        | none => exact Nat.zero_le _
        | some p => exact Nat.succ_le_succ (ih.few p)
      · exact Nat.le_succ_of_le (ih.few a)

/-! ## Climbing -/

theorem above_of_climb : ∀ {n a : Nat}, t.climb n a = some c → t.Above c a
  | 0, a, h => by
    obtain rfl := Option.some.inj h
    exact .refl
  | n + 1, a, h => by
    obtain ⟨p, hp, hc⟩ := Option.bind_eq_some_iff.1 h
    exact (above_of_climb hc).head hp

theorem Above.exists_climb (h : t.Above c a) : ∃ n, t.climb n a = some c := by
  induction h using Relation.ReflTransGen.head_induction_on with
  | refl => exact ⟨0, rfl⟩
  | head hp _ ih =>
    obtain ⟨n, hn⟩ := ih
    exact ⟨n + 1, Option.bind_eq_some_iff.2 ⟨_, hp, hn⟩⟩

namespace Layered

theorem exists_parent (h : t.Layered) (hn : n < t.depth a) : ∃ p, t.parent? a = some p := by
  cases hp : t.parent? a with
  | none => exact absurd (h.top a hp ▸ hn) (Nat.not_lt_zero n)
  | some p => exact ⟨p, rfl⟩

theorem depth_of_climb (h : t.Layered) : ∀ {n a : Nat}, t.climb n a = some c → t.depth a = t.depth c + n
  | 0, a, hc => by
    obtain rfl := Option.some.inj hc
    rfl
  | n + 1, a, hc => by
    obtain ⟨p, hp, hc⟩ := Option.bind_eq_some_iff.1 hc
    rw [h.below a p hp, depth_of_climb h hc]
    rfl

/-- No climb within the depth of a node fails. -/
theorem exists_climb (h : t.Layered) : ∀ {n a : Nat}, n ≤ t.depth a → ∃ c, t.climb n a = some c
  | 0, a, _ => ⟨a, rfl⟩
  | n + 1, a, hn => by
    obtain ⟨p, hp⟩ := h.exists_parent hn
    rw [h.below a p hp] at hn
    obtain ⟨c, hc⟩ := exists_climb h (Nat.le_of_succ_le_succ hn)
    exact ⟨c, Option.bind_eq_some_iff.2 ⟨p, hp, hc⟩⟩

/-- **An ancestor is what a climb by the difference of the depths leads to.** -/
theorem above_iff (h : t.Layered) : t.Above c a ↔ t.depth c ≤ t.depth a ∧ t.climb (t.depth a - t.depth c) a = some c := by
  constructor
  · intro hc
    obtain ⟨n, hn⟩ := hc.exists_climb
    rw [h.depth_of_climb hn, Nat.add_sub_cancel_left]
    exact ⟨Nat.le_add_right _ n, hn⟩
  · exact fun hc => above_of_climb hc.2

theorem depth_le (h : t.Layered) (hc : t.Above c a) : t.depth c ≤ t.depth a := (h.above_iff.1 hc).1

/-- Of the ancestors of a node at most one is at a level. -/
theorem eq_of_depth_eq (h : t.Layered) (hc : t.Above c a) (hd : t.Above d a) (he : t.depth c = t.depth d) : c = d := by
  have hclimb := (h.above_iff.1 hc).2
  rw [he, (h.above_iff.1 hd).2] at hclimb
  exact (Option.some.inj hclimb).symm

/-- Of two ancestors of a node the one that is not deeper stands above the other. -/
theorem above_of_depth_le (h : t.Layered) (hc : t.Above c a) (hd : t.Above d a) (hle : t.depth d ≤ t.depth c) : t.Above d c := by
  obtain ⟨e, he⟩ := h.exists_climb (Nat.sub_le (t.depth c) (t.depth d))
  have hdepth : t.depth e = t.depth d := by
    have := h.depth_of_climb he
    omega
  have hec : t.Above e c := above_of_climb he
  rw [h.eq_of_depth_eq hd (hc.trans hec) hdepth.symm]
  exact hec

theorem depth_lt (h : t.Layered) (hd : t.Above d c) (hne : d ≠ c) : t.depth d < t.depth c :=
  Nat.lt_of_le_of_ne (h.depth_le hd) fun he => hne (h.eq_of_depth_eq hd .refl he)

/-- The depth that a node carries is the number of levels above it. -/
theorem level (h : t.Layered) : ∀ {n a : Nat}, t.depth a = n → t.Level a n
  | 0, a, hn => by
    cases hp : t.parent? a with
    | none => exact .root hp
    | some p => exact absurd ((h.below a p hp).symm.trans hn) (Nat.succ_ne_zero _)
  | n + 1, a, hn => by
    obtain ⟨p, hp⟩ := h.exists_parent (n := 0) (a := a) (by omega)
    exact .child hp (level h (Nat.succ.inj ((h.below a p hp).symm.trans hn)))

/-! ## Roots -/

theorem exists_root (h : t.Layered) (a : Nat) : ∃ r, t.Root r a := by
  obtain ⟨r, hr⟩ := h.exists_climb (Nat.le_refl (t.depth a))
  refine ⟨r, above_of_climb hr, ?_⟩
  have hdepth := h.depth_of_climb hr
  cases hp : t.parent? r with
  | none => rfl
  | some p =>
    rw [h.below r p hp] at hdepth
    omega

theorem root_unique (h : t.Layered) (hr : t.Root r a) (hs : t.Root s a) : r = s :=
  h.eq_of_depth_eq hr.1 hs.1 ((h.top r hr.2).trans (h.top s hs.2).symm)

/-- Two nodes have a common ancestor if and only if they have one root. -/
theorem common_iff_root (h : t.Layered) : (∃ c, t.Common a b c) ↔ ∃ r, t.Root r a ∧ t.Root r b := by
  constructor
  · rintro ⟨c, ha, hb⟩
    obtain ⟨r, hr, htop⟩ := h.exists_root c
    exact ⟨r, ⟨ha.trans hr, htop⟩, hb.trans hr, htop⟩
  · rintro ⟨r, hr, hs⟩
    exact ⟨r, hr.1, hs.1⟩

/-! ## The two climbs -/

/-- To go up from a node while it is deeper than another is to climb by the difference of the depths. -/
theorem rise_eq (h : t.Layered) : ∀ {n a : Nat}, t.depth a ≤ n → t.rise b n a = t.climb (t.depth a - t.depth b) a
  | n, a, hn => by
    by_cases hdeep : t.depth b < t.depth a
    · obtain ⟨p, hp⟩ := h.exists_parent hdeep
      have hbelow := h.below a p hp
      cases n with
      | zero => omega
      | succ n =>
        have hclimb : t.depth a - t.depth b = t.depth p - t.depth b + 1 := by omega
        rw [rise, if_pos hdeep, hp, Option.bind_some, rise_eq h (by omega), hclimb, climb, hp, Option.bind_some]
    · rw [Nat.sub_eq_zero_of_le (Nat.le_of_not_lt hdeep), climb]
      cases n <;> rw [rise, if_neg hdeep]

/-- Two nodes of one level need no more steps to meet than there are levels above them. -/
theorem meet_eq (h : t.Layered) : ∀ {n a b : Nat}, t.depth a = t.depth b → t.depth a ≤ n → t.meet n a b = t.meet (t.depth a) a b
  | n, a, b, he, hn => by
    by_cases hsame : a = b
    · subst hsame
      cases n <;> cases t.depth a <;> simp only [meet, beq_self_eq_true, if_true]
    cases hp : t.parent? a with
    | none =>
      rw [h.top a hp]
      cases n <;> simp only [meet, beq_iff_eq, hsame, if_false, hp]
    | some p =>
      have hbelow := h.below a p hp
      obtain ⟨s, hs⟩ := h.exists_parent (n := 0) (a := b) (by omega)
      have hbelow' := h.below b s hs
      cases n with
      | zero => omega
      | succ n =>
        rw [hbelow]
        simp only [meet, beq_iff_eq, hsame, if_false, hp, hs]
        exact meet_eq h (by omega) (by omega)

/-- **The search climbs to one level and then up from both nodes.** -/
theorem commonAncestor?_eq (h : t.Layered) (a b : Nat) : t.commonAncestor? a b =
    (t.climb (t.depth a - t.depth b) a).bind fun a' => (t.climb (t.depth b - t.depth a) b).bind fun b' =>
      t.meet (min (t.depth a) (t.depth b)) a' b' := by
  obtain ⟨a', ha⟩ := h.exists_climb (Nat.sub_le (t.depth a) (t.depth b))
  obtain ⟨b', hb⟩ := h.exists_climb (Nat.sub_le (t.depth b) (t.depth a))
  have hda := h.depth_of_climb ha
  have hdb := h.depth_of_climb hb
  have hlevel : t.depth b - t.depth a' = t.depth b - t.depth a := by omega
  have hmin : t.depth a' = min (t.depth a) (t.depth b) := by omega
  simp only [commonAncestor?, h.rise_eq (h.few a), ha, Option.bind_eq_bind, Option.bind_some, h.rise_eq (h.few b), hlevel, hb]
  rw [h.meet_eq (by omega) (h.few a'), hmin]

/-- A climb to the level of the other node keeps all common ancestors. -/
theorem common_climb (h : t.Layered) (hc : t.climb (t.depth a - t.depth b) a = some c) : t.Common a b d ↔ t.Common c b d := by
  have hca : t.Above c a := above_of_climb hc
  have hdepth := h.depth_of_climb hc
  refine ⟨fun hd => ⟨h.above_of_depth_le hca hd.1 ?_, hd.2⟩, fun hd => ⟨hca.trans hd.1, hd.2⟩⟩
  have hda := h.depth_le hd.1
  have hdb := h.depth_le hd.2
  omega

/-- Two different nodes of one level have the common ancestors of their parents. -/
theorem common_parent (h : t.Layered) (he : t.depth a = t.depth b) (hne : a ≠ b) (ha : t.parent? a = some p)
    (hb : t.parent? b = some s) : t.Common a b d ↔ t.Common p s d := by
  refine ⟨fun hd => ?_, fun hd => ⟨hd.1.head ha, hd.2.head hb⟩⟩
  -- neither node is an ancestor of the other
  have hda : d ≠ a := fun hda => hne (h.eq_of_depth_eq (hda ▸ hd.2) .refl he)
  have hdb : d ≠ b := fun hdb => hne (h.eq_of_depth_eq (hdb ▸ hd.1) .refl he.symm).symm
  have hlt := h.depth_lt hd.1 hda
  have hlt' := h.depth_lt hd.2 hdb
  rw [h.below a p ha] at hlt
  rw [h.below b s hb] at hlt'
  exact ⟨h.above_of_depth_le (.single ha) hd.1 (Nat.le_of_lt_succ hlt), h.above_of_depth_le (.single hb) hd.2 (Nat.le_of_lt_succ hlt')⟩

/-- A common ancestor below all others is the nearest one. -/
theorem nearest (h : t.Layered) (hc : t.Common a b c) (hall : ∀ d, t.Common a b d → t.Above d c) : t.Nearest a b c :=
  ⟨hc, fun d hd hne => h.depth_lt (hall d hd) hne⟩

/-- Two nodes of one level meet at their nearest common ancestor, if they have any. -/
theorem meet_cases (h : t.Layered) : ∀ {n a b : Nat}, t.depth a = n → t.depth b = n →
    (∃ c, t.meet n a b = some c ∧ t.Nearest a b c) ∨ t.meet n a b = none ∧ ∀ d, ¬ t.Common a b d
  | n, a, b, ha, hb => by
    by_cases he : a = b
    · subst he
      refine .inl ⟨a, ?_, h.nearest ⟨.refl, .refl⟩ fun d hd => hd.1⟩
      cases n <;> simp only [meet, beq_self_eq_true, if_true]
    cases n with
    | zero =>
      refine .inr ⟨by simp only [meet, beq_iff_eq, he, if_false], fun d hd => he ?_⟩
      have hda : d = a := Classical.byContradiction fun hne => Nat.not_lt_zero _ (ha ▸ h.depth_lt hd.1 hne)
      have hdb : d = b := Classical.byContradiction fun hne => Nat.not_lt_zero _ (hb ▸ h.depth_lt hd.2 hne)
      exact hda.symm.trans hdb
    | succ n =>
      obtain ⟨p, hp⟩ := h.exists_parent (n := 0) (a := a) (by omega)
      obtain ⟨s, hs⟩ := h.exists_parent (n := 0) (a := b) (by omega)
      have hmeet : t.meet (n + 1) a b = t.meet n p s := by simp only [meet, beq_iff_eq, he, if_false, hp, hs]
      have hcommon : ∀ d, t.Common a b d ↔ t.Common p s d := fun d => h.common_parent (ha.trans hb.symm) he hp hs
      rw [hmeet]
      rcases meet_cases h (Nat.succ.inj ((h.below a p hp).symm.trans ha)) (Nat.succ.inj ((h.below b s hs).symm.trans hb)) with
        ⟨c, hc, hnear⟩ | ⟨hnone, hno⟩
      · exact .inl ⟨c, hc, (hcommon c).2 hnear.common, fun d hd => hnear.deepest d ((hcommon d).1 hd)⟩
      · exact .inr ⟨hnone, fun d hd => hno d ((hcommon d).1 hd)⟩

theorem commonAncestor?_cases (h : t.Layered) (a b : Nat) :
    (∃ c, t.commonAncestor? a b = some c ∧ t.Nearest a b c) ∨ t.commonAncestor? a b = none ∧ ∀ d, ¬ t.Common a b d := by
  obtain ⟨a', ha⟩ := h.exists_climb (Nat.sub_le (t.depth a) (t.depth b))
  obtain ⟨b', hb⟩ := h.exists_climb (Nat.sub_le (t.depth b) (t.depth a))
  have hda := h.depth_of_climb ha
  have hdb := h.depth_of_climb hb
  have hmeet : t.commonAncestor? a b = t.meet (min (t.depth a) (t.depth b)) a' b' := by
    rw [h.commonAncestor?_eq, ha, Option.bind_some, hb, Option.bind_some]
  have hcommon : ∀ d, t.Common a b d ↔ t.Common a' b' d := fun d => by
    have hb' : t.climb (t.depth b - t.depth a') b = some b' := by
      rw [← hb]
      congr 1
      omega
    rw [h.common_climb ha, Common, and_comm]
    exact (h.common_climb hb').trans And.comm
  rw [hmeet]
  have hlevel : t.depth a' = min (t.depth a) (t.depth b) ∧ t.depth b' = min (t.depth a) (t.depth b) := by omega
  rcases h.meet_cases hlevel.1 hlevel.2 with ⟨c, hc, hnear⟩ | ⟨hnone, hno⟩
  · exact .inl ⟨c, hc, (hcommon c).2 hnear.common, fun d hd => hnear.deepest d ((hcommon d).1 hd)⟩
  · exact .inr ⟨hnone, fun d hd => hno d ((hcommon d).1 hd)⟩

end Layered

/-! ## The nearest common ancestor -/

theorem Nearest.unique (h : t.Nearest a b c) (h' : t.Nearest a b d) : c = d :=
  Classical.byContradiction fun hne => Nat.lt_asymm (h.deepest d h'.common (Ne.symm hne)) (h'.deepest c h.common hne)

theorem Nearest.symm (h : t.Nearest a b c) : t.Nearest b a c := ⟨h.common.symm, fun d hd => h.deepest d hd.symm⟩

theorem Layered.commonAncestor?_eq_some_iff (h : t.Layered) : t.commonAncestor? a b = some c ↔ t.Nearest a b c := by
  rcases h.commonAncestor?_cases a b with ⟨d, hd, hnear⟩ | ⟨hnone, hno⟩
  · rw [hd, Option.some.injEq]
    exact ⟨fun he => he ▸ hnear, hnear.unique⟩
  · rw [hnone]
    exact ⟨fun he => absurd he.symm (Option.some_ne_none c), fun hc => absurd hc.common (hno c)⟩

theorem Layered.commonAncestor?_eq_none_iff (h : t.Layered) : t.commonAncestor? a b = none ↔ ∃ r s, t.Root r a ∧ t.Root s b ∧ r ≠ s := by
  obtain ⟨r, hr⟩ := h.exists_root a
  obtain ⟨s, hs⟩ := h.exists_root b
  have hcommon : (∃ c, t.Common a b c) ↔ r = s := by
    rw [h.common_iff_root]
    exact ⟨fun ⟨x, hxa, hxb⟩ => (h.root_unique hr hxa).trans (h.root_unique hxb hs), fun he => ⟨r, hr, he ▸ hs⟩⟩
  have hdifferent : (∃ r s, t.Root r a ∧ t.Root s b ∧ r ≠ s) ↔ r ≠ s := by
    refine ⟨fun ⟨x, y, hx, hy, hne⟩ he => hne ?_, fun hne => ⟨r, s, hr, hs, hne⟩⟩
    rw [h.root_unique hx hr, h.root_unique hy hs, he]
  rw [hdifferent, ne_eq, ← hcommon]
  rcases h.commonAncestor?_cases a b with ⟨c, hc, hnear⟩ | ⟨hnone, hno⟩
  · rw [hc]
    exact ⟨fun he => absurd he (Option.some_ne_none c), fun hno => absurd ⟨c, hnear.common⟩ hno⟩
  · exact ⟨fun _ ⟨c, hc⟩ => hno c hc, fun _ => hnone⟩

theorem Layered.onSamePath_iff (h : t.Layered) :
    t.onSamePath a b = true ↔ ∃ c, t.Nearest a b c ∧ (t.get? c).map (·.kind) = some .path := by
  have hfind : t.onSamePath a b = true ↔ ∃ c, t.commonAncestor? a b = some c ∧ (t.get? c).map (·.kind) = some .path := by
    unfold onSamePath
    cases t.commonAncestor? a b with
    | none => simp
    | some c => cases hc : t.get? c <;> simp [hc]
  rw [hfind]
  exact exists_congr fun c => and_congr_left' h.commonAncestor?_eq_some_iff

/-- **What is found for two nodes is their nearest common ancestor**, in every tree that is built by adding nodes: the one
common ancestor that is deeper than all others, where the depth of a node counts the levels above it.  Nothing is found if and
only if the roots differ.  The order of the nodes does not matter, and both may be reached in one run if and only if that
ancestor is there and is a path node. -/
theorem nearest_commonAncestor? {t : PathTree} (h : t.Built) {a b : Nat} (ha : a < t.nodes.size) (hb : b < t.nodes.size) :
    (∀ c, t.commonAncestor? a b = some c ↔ t.Nearest a b c) ∧
    (∀ c d, t.Nearest a b c → t.Nearest a b d → c = d) ∧
    (∀ c, t.Above c a ∨ t.Above c b → c < t.nodes.size ∧ t.Level c (t.depth c)) ∧
    (t.commonAncestor? a b = none ↔ ∃ r s, t.Root r a ∧ t.Root s b ∧ r ≠ s) ∧
    t.commonAncestor? a b = t.commonAncestor? b a ∧
    (t.onSamePath a b = true ↔ ∃ c, t.Nearest a b c ∧ (t.get? c).map (·.kind) = some .path) := by
  have hl := h.layered
  refine ⟨fun c => hl.commonAncestor?_eq_some_iff, fun c d => Nearest.unique, fun c hc => ⟨?_, hl.level rfl⟩,
    hl.commonAncestor?_eq_none_iff, Option.ext fun c => ?_, hl.onSamePath_iff⟩
  · exact hc.elim (h.lt_of_above ha) (h.lt_of_above hb)
  rw [hl.commonAncestor?_eq_some_iff, hl.commonAncestor?_eq_some_iff]
  exact ⟨Nearest.symm, Nearest.symm⟩

/-- A choice inside an arm of another choice, and a root of its own: `0` is the method, `1` the outer choice with the arms `2`
and `3`, `4` the inner choice with the arms `5` and `6`. -/
def nestedChoices : PathTree :=
  ((((((((({} : PathTree).add .path none).2.add .branch (some 0)).2.add .path (some 1)).2.add .path (some 1)).2.add .branch
    (some 2)).2.add .path (some 4)).2.add .path (some 4)).2.add .path none).2

theorem nearest_commonAncestor?_nestedChoices : nestedChoices.Built ∧ nestedChoices.nodes.size = 8 ∧
    (nestedChoices.Nearest 5 6 4 ∧ nestedChoices.Nearest 3 6 1 ∧ nestedChoices.onSamePath 5 6 = false) ∧
    (nestedChoices.Nearest 2 5 2 ∧ ∃ c, nestedChoices.Nearest 2 5 c ∧ (nestedChoices.get? c).map (·.kind) = some .path) ∧
    ∃ r s, nestedChoices.Root r 6 ∧ nestedChoices.Root s 7 ∧ r ≠ s := by
  have hbuilt : nestedChoices.Built := by
    refine .add _ ?_ (.add _ ?_ (.add _ ?_ (.add _ ?_ (.add _ ?_ (.add _ ?_ (.add _ ?_ (.add _ ?_ .empty)))))))
    all_goals decide
  have hsize : nestedChoices.nodes.size = 8 := rfl
  have hnearest : ∀ {a b c}, a < 8 → b < 8 → nestedChoices.commonAncestor? a b = some c → nestedChoices.Nearest a b c :=
    fun ha hb => ((nearest_commonAncestor? hbuilt ha hb).1 _).1
  refine ⟨hbuilt, hsize, ⟨hnearest ?_ ?_ ?_, hnearest ?_ ?_ ?_, ?_⟩, ⟨hnearest ?_ ?_ ?_, ?_⟩, ?_⟩
  any_goals decide
  · exact (nearest_commonAncestor? hbuilt (by decide) (by decide)).2.2.2.2.2.1 (by decide)
  · exact (nearest_commonAncestor? hbuilt (by decide) (by decide)).2.2.2.1.1 (by decide)

end LispMachine.PathTree
