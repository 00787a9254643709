import LispMachine.Proofs.Sites.Cell
import Mathlib.Data.List.Induction
/-!
# A call site is a map with one entry

A site is asked, told and cleared in any order.  What it remembers is what it was told last, unless it has been cleared
since (`latest`), and that alone is what it answers; the counters tell how often it could answer, how often it could not,
and how often it was told something (`answers_latest`).  The only condition is that it is told of no class with the number
zero, because with that number the word of the site might be the one that stands for nothing.
-/
namespace LispMachine.CallSite

/-- What can be done with a site. -/
inductive Op where
  | lookup (type : UInt32)
  | install (type dispatcher : UInt32)
  | invalidate

namespace Op

/-- The answer, if it is a lookup that finds something, and the site afterwards. -/
def run : Op → CallSite → Option UInt32 × CallSite
  | .lookup type, c => c.lookup type
  | .install type dispatcher, c => (none, c.install type dispatcher)
  | .invalidate, c => (none, c.invalidate)

/-- Classes count from one. -/
def Numbered : Op → Prop
  | .install type _ => type ≠ 0
  | _ => True

def isLookup : Op → Bool
  | .lookup _ => true
  | _ => false

def isInstall : Op → Bool
  | .install .. => true
  | _ => false

/-- What is to be remembered from now on, if that changes. -/
def update? : Op → Option (Option (UInt32 × UInt32))
  | .lookup _ => none
  | .install type dispatcher => some (some (type, dispatcher))
  | .invalidate => some none

end Op

/-- A site on which all this has been done, from a new one on. -/
def after (ops : List Op) : CallSite := ops.foldl (fun c op => (op.run c).2) {}

/-- The pair of the last `install`, unless there is none or an `invalidate` came later. -/
def latest (ops : List Op) : Option (UInt32 × UInt32) := (ops.filterMap Op.update?).getLast?.join

/-- What the lookups of a history answer, one after the other. -/
def answers : List Op → CallSite → List (Option UInt32)
  | [], _ => []
  | op :: ops, c => if op.isLookup then (op.run c).1 :: answers ops (op.run c).2 else answers ops (op.run c).2

variable {c : CallSite} {op : Op} {ops : List Op} {t d : UInt32}

/-! ## One operation -/

/-- The word of a pair is not the word for nothing. -/
theorem pack_ne_zero (ht : t ≠ 0) (d : UInt32) : pack t d ≠ 0 := by
  intro h
  have hpos : t.toNat ≠ 0 := fun h0 => ht (UInt32.toNat_inj.1 h0)
  have hzero : t.toNat * 4294967296 + d.toNat = 0 := by rw [← toNat_pack, h]; rfl
  omega

theorem entry_install (ht : t ≠ 0) (c : CallSite) (d : UInt32) : (c.install t d).entry = some (t, d) := by
  simp only [entry, install, beq_iff_eq, pack_ne_zero ht d, if_false, typeOf_pack, dispatcherOf_pack]

/-- A site answers with the pair that it remembers, and with no other. -/
theorem lookup_eq_some_iff : (c.lookup t).1 = some d ↔ c.entry = some (t, d) := by
  refine ⟨fun h => (lookup_some h).1, fun h => ?_⟩
  unfold entry at h
  split at h
  · cases h
  · rename_i hcell
    cases h
    rw [lookup, if_pos]
    rw [Bool.and_eq_true, bne_iff_ne]
    exact ⟨fun hz => hcell (beq_iff_eq.2 hz), beq_self_eq_true _⟩

theorem entry_lookup (c : CallSite) (t : UInt32) : (c.lookup t).2.entry = c.entry := by
  rw [entry, entry, cell_lookup]

/-- An operation puts in what it has to, and otherwise the memory stays. -/
theorem entry_run (hn : op.Numbered) (c : CallSite) : (op.run c).2.entry = op.update?.getD c.entry := by
  cases op with
  | lookup t => exact entry_lookup c t
  | install t d => exact entry_install hn c d
  | invalidate => rfl

/-- One more of the three counters, or none. -/
theorem counters_run (op : Op) (c : CallSite) :
    (op.run c).2.hits = c.hits + (if op.isLookup && (op.run c).1.isSome then 1 else 0) ∧
    (op.run c).2.misses = c.misses + (if op.isLookup && (op.run c).1.isNone then 1 else 0) ∧
    (op.run c).2.updates = c.updates + (if op.isInstall then 1 else 0) := by
  cases op with
  | lookup t =>
    simp only [Op.run, Op.isLookup, Op.isInstall, Bool.true_and, Bool.false_eq_true, if_false, Nat.add_zero]
    cases h : (c.lookup t).1 with
    | none => rw [lookup_none h]; exact ⟨rfl, rfl, rfl⟩
    | some d => rw [(lookup_some h).2]; exact ⟨rfl, rfl, rfl⟩
  | install t d => exact ⟨rfl, rfl, rfl⟩
  | invalidate => exact ⟨rfl, rfl, rfl⟩

/-! ## Histories -/

theorem latest_concat (ops : List Op) (op : Op) : latest (ops ++ [op]) = op.update?.getD (latest ops) := by
  rw [latest, List.filterMap_append]
  cases hop : op.update? with
  | none => rw [List.filterMap_cons_none hop, List.filterMap_nil, List.append_nil]; rfl
  | some u => rw [List.filterMap_cons_some hop, List.filterMap_nil, List.getLast?_concat]; rfl

theorem after_concat (ops : List Op) (op : Op) : after (ops ++ [op]) = (op.run (after ops)).2 := List.foldl_append

theorem answers_concat (op : Op) : ∀ (ops : List Op) (c : CallSite), answers (ops ++ [op]) c =
    answers ops c ++ (if op.isLookup then [(op.run (ops.foldl (fun c op => (op.run c).2) c)).1] else [])
  | [], c => by simp only [List.nil_append, answers, List.foldl_nil]
  | o :: ops, c => by
    simp only [List.cons_append, answers, List.foldl_cons, answers_concat op ops]
    split <;> rfl

/-- A site remembers what it was told last. -/
theorem entry_after (h : ∀ op ∈ ops, op.Numbered) : (after ops).entry = latest ops := by
  induction ops using List.reverseRecOn with
  | nil => rfl
  | append_singleton ops op ih =>
    obtain ⟨hops, hop⟩ := List.forall_mem_append.1 h
    rw [after_concat, latest_concat, entry_run (hop op (List.mem_singleton_self op)), ih hops]

/-- The counters count. -/
theorem counters_after (ops : List Op) :
    (after ops).hits = (answers ops {}).countP Option.isSome ∧ (after ops).misses = (answers ops {}).countP Option.isNone ∧
    (after ops).updates = ops.countP Op.isInstall := by
  induction ops using List.reverseRecOn with
  | nil => exact ⟨rfl, rfl, rfl⟩
  | append_singleton ops op ih =>
    obtain ⟨hhits, hmisses, hupdates⟩ := counters_run op (after ops)
    rw [after_concat, hhits, hmisses, hupdates, ih.1, ih.2.1, ih.2.2, answers_concat, List.countP_append, List.countP_append,
      List.countP_append, List.countP_singleton]
    change _ = _ + List.countP _ (if op.isLookup then [(op.run (after ops)).1] else []) ∧
      _ = _ + List.countP _ (if op.isLookup then [(op.run (after ops)).1] else []) ∧ _
    cases op.isLookup with
    | false => exact ⟨rfl, rfl, rfl⟩
    | true => simp only [Bool.true_and, if_true, List.countP_singleton, and_self]

/-- **A call site is a map with one entry.**  A lookup anywhere in a history answers with a dispatcher if and only if the
last `install` or `invalidate` before it was the `install` of that dispatcher for that class. -/
theorem answers_latest (h : ∀ op ∈ ops, op.Numbered) :
    (∀ before t rest, ops = before ++ .lookup t :: rest →
      ∀ d, ((after before).lookup t).1 = some d ↔ latest before = some (t, d)) ∧
    (after ops).entry = latest ops ∧
    (after ops).hits = (answers ops {}).countP Option.isSome ∧
    (after ops).misses = (answers ops {}).countP Option.isNone ∧
    (after ops).updates = ops.countP Op.isInstall := by
  refine ⟨fun before t rest hops d => ?_, entry_after h, counters_after ops⟩
  rw [lookup_eq_some_iff, entry_after fun op hop => h op (hops ▸ List.mem_append_left _ hop)]

/-- A dispatcher with the number zero, two misses for another class and after an `invalidate`, and the largest class. -/
def sampleHistory : List Op :=
  [.lookup 3, .install 3 0, .lookup 3, .lookup 4, .invalidate, .lookup 3, .install 4294967295 9]

theorem answers_latest_sample :
    (∀ op ∈ sampleHistory, op.Numbered) ∧ ((after [.lookup 3, .install 3 0]).lookup 3).1 = some 0 ∧
    (after sampleHistory).entry = some (4294967295, 9) ∧ (after sampleHistory).hits = 1 ∧ (after sampleHistory).misses = 3 ∧
    (after sampleHistory).updates = 2 := by
  have hnumbered : ∀ op ∈ sampleHistory, op.Numbered := by simp [sampleHistory, Op.Numbered]
  obtain ⟨hlookup, hentry, hhits, hmisses, hupdates⟩ := answers_latest hnumbered
  exact ⟨hnumbered, (hlookup [.lookup 3, .install 3 0] 3 _ rfl 0).2 rfl, hentry.trans rfl, hhits.trans (by decide),
    hmisses.trans (by decide), hupdates.trans rfl⟩

end LispMachine.CallSite
