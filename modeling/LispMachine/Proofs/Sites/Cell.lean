import LispMachine.CallSite
/-!
# What a call site remembers

The word of a call site gives back the pair that was packed into it.  `Holds` says that whatever a site
remembers has a property, and each operation on sites says what becomes of it.
-/
namespace LispMachine.CallSite

/-! ## Packing -/

theorem toNat_pack (type dispatcher : UInt32) : (pack type dispatcher).toNat = type.toNat * 4294967296 + dispatcher.toNat := by
  have ht := type.toNat_lt
  have hd := dispatcher.toNat_lt
  have hs : (type.toUInt64 <<< 32).toNat = type.toNat <<< 32 := by
    rw [UInt64.toNat_shiftLeft, UInt32.toNat_toUInt64]
    exact Nat.mod_eq_of_lt (by simp [Nat.shiftLeft_eq]; omega)
  rw [pack, UInt64.toNat_or, hs, UInt32.toNat_toUInt64, ← Nat.shiftLeft_add_eq_or_of_lt hd, Nat.shiftLeft_eq]

@[simp] theorem typeOf_pack (type dispatcher : UInt32) : typeOf (pack type dispatcher) = type := by
  have hd := dispatcher.toNat_lt
  have hq : (type.toNat * 4294967296 + dispatcher.toNat) >>> 32 = type.toNat := by
    rw [Nat.shiftRight_eq_div_pow]
    omega
  apply UInt32.toNat_inj.1
  rw [typeOf, UInt64.toNat_toUInt32, UInt64.toNat_shiftRight, toNat_pack]
  simp only [UInt64.reduceToNat, Nat.reduceMod, hq]
  exact Nat.mod_eq_of_lt type.toNat_lt

@[simp] theorem dispatcherOf_pack (type dispatcher : UInt32) : dispatcherOf (pack type dispatcher) = dispatcher := by
  have hd := dispatcher.toNat_lt
  apply UInt32.toNat_inj.1
  rw [dispatcherOf, UInt64.toNat_toUInt32, toNat_pack]
  omega

/-! ## Operations -/

/-- Whatever the site remembers has the property. -/
def Holds (P : UInt32 → UInt32 → Prop) (c : CallSite) : Prop := ∀ t d, c.entry = some (t, d) → P t d

variable {P Q : UInt32 → UInt32 → Prop} {c : CallSite} {t d : UInt32}

theorem Holds.mono (h : c.Holds P) (hpq : ∀ t d, P t d → Q t d) : c.Holds Q := fun t d he => hpq t d (h t d he)

theorem holds_of_cell {c' : CallSite} (h : c.Holds P) (hc : c'.cell = c.cell) : c'.Holds P := by
  intro t d he
  unfold entry at he
  rw [hc] at he
  exact h t d he

theorem holds_empty : Holds P {} := fun _ _ h => by cases h

theorem holds_invalidate (c : CallSite) : c.invalidate.Holds P := fun _ _ h => by cases h

theorem holds_install (c : CallSite) (h : P t d) : (c.install t d).Holds P := by
  intro t' d' he
  unfold entry at he
  split at he
  · cases he
  · simp only [install, typeOf_pack, dispatcherOf_pack, Option.some.injEq, Prod.mk.injEq] at he
    obtain ⟨rfl, rfl⟩ := he
    exact h

/-- A hit finds the remembered pair and is counted. -/
theorem lookup_some (h : (c.lookup t).1 = some d) : c.entry = some (t, d) ∧ (c.lookup t).2 = { c with hits := c.hits + 1 } := by
  unfold lookup at h ⊢
  split at h
  · rename_i hc
    simp only [Bool.and_eq_true, bne_iff_ne, ne_eq, beq_iff_eq] at hc
    rw [if_pos (by simpa using hc)]
    cases h
    refine ⟨?_, rfl⟩
    simp only [entry, beq_iff_eq, hc.1, if_false, hc.2]
  · cases h

/-- A miss is counted. -/
theorem lookup_none (h : (c.lookup t).1 = none) : (c.lookup t).2 = { c with misses := c.misses + 1 } := by
  unfold lookup at h ⊢
  split at h
  · cases h
  · rename_i hc
    rw [if_neg hc]

theorem cell_lookup (c : CallSite) (t : UInt32) : (c.lookup t).2.cell = c.cell := by
  unfold lookup
  split <;> rfl

theorem Holds.lookup (h : c.Holds P) (t : UInt32) : (c.lookup t).2.Holds P := holds_of_cell h (cell_lookup c t)

end LispMachine.CallSite
