import LispMachine.Proofs.Form.Readable
/-!
# Where faults are

The reader reports a fault where a token stands (`pos_of_readEach`): at the token it could not use, or at the mark or
bracket in front of it.  The place that stands in for an empty sequence of tokens is never reported, since a text
ends with a mark for its end.
-/
namespace LispMachine.Form

variable {e t : Located} {ts us rest : List Located} {f : Form} {n : Nat} {p : Pos}
  {fault : Fault ReadError}

/-- The place is that of a token. -/
def Stands (ts : List Located) (p : Pos) : Prop := ∃ t ∈ ts, t.pos = p

theorem Stands.mono (h : Stands us p) (hsub : us ⊆ ts) : Stands ts p := by
  obtain ⟨t, ht, hp⟩ := h
  exact ⟨t, hsub ht, hp⟩

theorem error_of_bind {ε α β : Type} {x : Except ε α} {g : α → Except ε β} {fault : ε} (h : (x >>= g) = .error fault) :
    x = .error fault ∨ ∃ a, x = .ok a ∧ g a = .error fault := by
  cases x with
  | error e => exact .inl (congrArg _ (Except.error.inj h))
  | ok a => exact .inr ⟨a, rfl, h⟩

/-- What is left of tokens that end with a mark for the end of the text ends with it too. -/
theorem Passed.snoc (h : Passed (ts ++ [e]) (f, rest)) (he : e.token = .eof) :
    ∃ us, rest = us ++ [e] ∧ us ++ [e] ⊆ ts ++ [e] := by
  obtain ⟨pre, us, rfl, rfl, -, -⟩ := h.before_eof he
  exact ⟨us, rfl, by simp⟩

/-- Up to a bound of the nesting, faults are at tokens, or where the mark or the bracket in front of the tokens
stands. -/
structure Pointed (n : Nat) : Prop where
  form : ∀ {ts e fault}, e.token = .eof → read n (ts ++ [e]) = .error fault → Stands (ts ++ [e]) fault.pos
  operand : ∀ {p ts e fault}, e.token = .eof → readOperand n p (ts ++ [e]) = .error fault →
    fault.pos = p ∨ Stands (ts ++ [e]) fault.pos
  items : ∀ {bracket what start ts e fault}, e.token = .eof →
    readItems n bracket what start (ts ++ [e]) = .error fault → fault.pos = start ∨ Stands (ts ++ [e]) fault.pos

theorem posOf_stands (ts : List Located) (e : Located) : Stands (ts ++ [e]) (posOf (ts ++ [e])) := by
  cases ts with
  | nil => exact ⟨e, by simp, rfl⟩
  | cons t ts => exact ⟨t, by simp, rfl⟩

theorem pos_of_ofSetItems {xs : List Form} (h : ofSetItems xs p = .error fault) : fault.pos = p := by
  unfold ofSetItems at h
  split at h
  · rw [← Except.error.inj h]
  · cases h

theorem pos_of_ofMapItems {xs : List Form} (h : ofMapItems xs p = .error fault) : fault.pos = p := by
  unfold ofMapItems at h
  split at h
  · rw [← Except.error.inj h]
  · dsimp only at h
    split at h
    · rw [← Except.error.inj h]
    · cases h

theorem pos_of_finish {token : Token} {k : Enclosure} {xs : List Form} (hk : opening? token = some k)
    (h : k.finish xs p = .error fault) : fault.pos = p := by
  cases token <;> simp only [opening?, Option.some.injEq, reduceCtorEq] at hk <;> subst hk
  case openParen | openBracket => cases h
  case openSet => exact pos_of_ofSetItems h
  case openBrace => exact pos_of_ofMapItems h

theorem pos_of_annotate {extra : Info} (h : annotate extra f p = .error fault) : fault.pos = p := by
  unfold annotate at h
  split at h
  · cases h
  · rw [← Except.error.inj h]

theorem pos_of_end (ht : isEnd t.token) (h : read (n + 1) (t :: ts) = .error fault) : fault.pos = t.pos := by
  obtain ⟨token, p⟩ := t
  rcases ht with rfl | ⟨b, hb⟩
  · exact congrArg Fault.pos (Except.error.inj h.symm)
  · cases b <;> cases token <;> simp only [Bracket.closes, Bool.false_eq_true] at hb <;>
      exact congrArg Fault.pos (Except.error.inj h.symm)

/-- A place behind the first token, or at it. -/
theorem stands_cons (h : fault.pos = t.pos ∨ Stands (ts ++ [e]) fault.pos) : Stands (t :: ts ++ [e]) fault.pos := by
  rcases h with h | h
  · exact ⟨t, by simp, h.symm⟩
  · exact h.mono (by simp)

theorem Pointed.form_succ (hn : Pointed n) (he : e.token = .eof) (h : read (n + 1) (ts ++ [e]) = .error fault) :
    Stands (ts ++ [e]) fault.pos := by
  cases ts with
  | nil =>
    obtain ⟨token, p⟩ := e
    obtain rfl := he
    obtain rfl := Except.error.inj h
    exact ⟨_, List.mem_singleton_self _, rfl⟩
  | cons t ts =>
    rw [List.cons_append] at h
    rcases start_cases t with ⟨f, hf⟩ | ⟨k, hk⟩ | ⟨name, hq⟩ | ht | ht | ht
    · rw [read_atom hf] at h
      cases h
    · rw [read_opening hk] at h
      apply stands_cons
      rcases error_of_bind h with h | ⟨r, -, h⟩
      · exact hn.items he h
      · rcases error_of_bind h with h | ⟨f, -, h⟩
        · exact .inl (pos_of_finish hk h)
        · cases h
    · rw [read_quoting hq] at h
      apply stands_cons
      rcases error_of_bind h with h | ⟨r, -, h⟩
      · exact hn.operand he h
      · cases h
    · rw [read_caret ht] at h
      apply stands_cons
      rcases error_of_bind h with h | ⟨⟨data, rest⟩, hdata, h⟩
      · exact hn.operand he h
      · obtain ⟨us, rfl, hsub⟩ := ((sound n).operand hdata).snoc he
        dsimp only at h
        split at h
        · exact .inl (by rw [← Except.error.inj h])
        · rcases error_of_bind h with h | ⟨r, -, h⟩
          · exact (hn.operand he h).imp_right (·.mono hsub)
          · rcases error_of_bind h with h | ⟨g, -, h⟩
            · exact .inl (pos_of_annotate h)
            · cases h
    · rw [read_discard ht] at h
      apply stands_cons
      rcases error_of_bind h with h | ⟨⟨g, rest⟩, hg, h⟩
      · exact .inr (hn.form he h)
      · obtain ⟨us, rfl, hsub⟩ := ((sound n).form hg).snoc he
        exact .inr ((hn.form he h).mono hsub)
    · exact ⟨t, by simp, (pos_of_end ht h).symm⟩

theorem Pointed.items_succ {bracket : Bracket} {what : String} {start : Pos} (hn : Pointed n) (he : e.token = .eof)
    (h : readItems (n + 1) bracket what start (ts ++ [e]) = .error fault) :
    fault.pos = start ∨ Stands (ts ++ [e]) fault.pos := by
  by_cases heof : tokenOf (ts ++ [e]) = .eof
  · rw [readItems_eof heof] at h
    exact .inl (by rw [← Except.error.inj h])
  cases ts with
  | nil => exact absurd he heof
  | cons t ts =>
    by_cases hc : bracket.closes t.token = true
    · rw [List.cons_append, readItems_close hc] at h
      cases h
    by_cases hd : t.token = .discard
    · rw [List.cons_append, readItems_discard hd] at h
      rcases error_of_bind h with h | ⟨⟨g, rest⟩, hg, h⟩
      · exact .inr (stands_cons (.inr (hn.form he h)))
      · obtain ⟨us, rfl, hsub⟩ := ((sound n).form hg).snoc he
        exact (hn.items he h).imp_right fun h => stands_cons (.inr (h.mono hsub))
    · rw [List.cons_append, readItems_item (by simpa using hc) heof hd] at h
      rcases error_of_bind h with h | ⟨⟨g, rest⟩, hg, h⟩
      · exact .inr (@Pointed.form _ hn (t :: ts) _ _ he h)
      · have hpassed : Passed (t :: ts ++ [e]) (g, rest) := (sound n).form hg
        obtain ⟨us, rfl, hsub⟩ := hpassed.snoc he
        rcases error_of_bind h with h | ⟨r, -, h⟩
        · exact (hn.items he h).imp_right (·.mono hsub)
        · cases h

theorem pointed : ∀ n, Pointed n
  | 0 => by
    constructor
    · intro ts e fault he h
      rw [read] at h
      rw [← Except.error.inj h]
      exact posOf_stands ts e
    · intro p ts e fault he h
      rw [readOperand] at h
      exact .inl (by rw [← Except.error.inj h])
    · intro bracket what start ts e fault he h
      rw [readItems] at h
      exact .inl (by rw [← Except.error.inj h])
  | n + 1 => by
    have hn := pointed n
    constructor
    · intro ts e fault he h
      exact hn.form_succ he h
    · intro p ts e fault he h
      rw [readOperand] at h
      split at h
      · exact .inl (by rw [← Except.error.inj h])
      · exact .inr (hn.form he h)
    · intro bracket what start ts e fault he h
      exact hn.items_succ he h

theorem pos_of_nextWithin (he : e.token = .eof) (h : nextWithin n (ts ++ [e]) = .error fault) :
    Stands (ts ++ [e]) fault.pos := by
  induction n generalizing ts with
  | zero => cases h
  | succ n ih =>
    by_cases heof : tokenOf (ts ++ [e]) = .eof
    · rw [nextWithin, heof] at h
      cases h
    cases ts with
    | nil => exact absurd he heof
    | cons t ts =>
      by_cases hd : t.token = .discard
      · rw [List.cons_append, nextWithin_discard hd] at h
        apply stands_cons
        rcases error_of_bind h with h | ⟨⟨g, rest⟩, hg, h⟩
        · exact .inr ((pointed _).form he h)
        · obtain ⟨us, rfl, hsub⟩ := ((sound _).form hg).snoc he
          exact .inr ((ih h).mono hsub)
      · rw [List.cons_append, nextWithin_form heof hd] at h
        rcases error_of_bind h with h | ⟨r, -, h⟩
        · exact @Pointed.form _ (pointed _) (t :: ts) _ _ he h
        · cases h

/-- **A fault is where a token stands.** -/
theorem pos_of_readEach (he : e.token = .eof) (hts : ∀ t ∈ ts, t.token ≠ .eof)
    (h : (readEach (ts ++ [e])).2 = some fault) : Stands (ts ++ [e]) fault.pos := by
  suffices ∀ {n ts}, (∀ t ∈ ts, t.token ≠ .eof) → (readEachWithin n (ts ++ [e])).2 = some fault →
      Stands (ts ++ [e]) fault.pos from this hts h
  intro n
  induction n with
  | zero =>
    intro _ _ h
    cases h
  | succ n ih =>
    intro ts hts h
    rw [readEachWithin] at h
    cases hnext : next? (ts ++ [e]) with
    | error fault' =>
      rw [hnext] at h
      obtain rfl := Option.some.inj h
      exact pos_of_nextWithin he hnext
    | ok r =>
      obtain ⟨o, rest⟩ := r
      rw [hnext] at h
      rcases row_of_nextWithin (show tokenOf [e] = .eof from he) hts (length_lt_append ts [e]) hnext with ⟨rfl, -⟩ | ⟨f, us, rfl, rfl, -, hsuf, -⟩
      · cases h
      · have hus : ∀ t ∈ us, t.token ≠ .eof := fun t ht => hts t (hsuf.subset ht)
        have hsub : us ++ [e] ⊆ ts ++ [e] := by
          simp only [List.append_subset, List.cons_subset, List.nil_subset]
          exact ⟨fun t ht => List.mem_append_left _ (hsuf.subset ht), by simp⟩
        exact (ih hus h).mono hsub

end LispMachine.Form
