import LispMachine.Form.Reader
/-!
# The grammar of forms

`Row ts fs` says which forms a sequence of tokens spells, one after the other.  It has a rule for each way
to start a form: a token that is a form by itself, a bracket with a row inside, a quote mark, metadata, and a
dropped form, which is spelled by tokens but adds nothing to the row.  Whatever the reader accepts is spelled
that way (`Sound`), so a proof about all forms that were read can follow the rules.
-/
namespace LispMachine.Form

/-! ## Kinds of tokens -/

/-- The form that a token is by itself. -/
def atom? (t : Located) : Option Form :=
  match t.token with
  | .nil => some .nil
  | .bool b => some (.bool b)
  | .long n => some (.long n)
  | .double d => some (.double d)
  | .char c => some (.char c)
  | .str s => some (.str s)
  | .keyword k => some (.keyword (Keyword.parse k))
  | .symbol s => some (placed (.symbol (Symbol.parse s) none) t.pos)
  | _ => none

/-- What an opening bracket starts: how it is closed, what it is called, and the form that the items make. -/
structure Enclosure where
  bracket : Bracket
  what : String
  finish : List Form → Pos → Except (Fault ReadError) Form

def opening? : Token → Option Enclosure
  | .openParen => some ⟨.paren, "list", fun items pos => .ok (placed (.list items none) pos)⟩
  | .openBracket => some ⟨.square, "vector", fun items pos => .ok (placed (.vector items none) pos)⟩
  | .openSet => some ⟨.curly, "set", ofSetItems⟩
  | .openBrace => some ⟨.curly, "map", ofMapItems⟩
  | _ => none

/-- The head of the list that a quote mark stands for. -/
def quoting? : Token → Option String
  | .quote => some "quote"
  | .varQuote => some "var"
  | _ => none

/-- Sequences of tokens and the forms they spell. -/
inductive Row : List Located → List Form → Prop
  | done : Row [] []
  | atom {t : Located} {us : List Located} {f : Form} {fs : List Form} (hf : atom? t = some f) (row : Row us fs) :
      Row (t :: us) (f :: fs)
  | bracket {t c : Located} {ts us : List Located} {k : Enclosure} {xs fs : List Form} {f : Form}
      (hk : opening? t.token = some k) (hc : k.bracket.closes c.token = true) (items : Row ts xs)
      (hf : k.finish xs t.pos = .ok f) (row : Row us fs) : Row (t :: (ts ++ c :: us)) (f :: fs)
  | quoted {t : Located} {us : List Located} {name : String} {f : Form} {fs : List Form}
      (hn : quoting? t.token = some name) (row : Row us (f :: fs)) :
      Row (t :: us) (placed (.list [sym name, f] none) t.pos :: fs)
  | annotated {t : Located} {us : List Located} {data f g : Form} {extra : Info} {fs : List Form}
      (ht : t.token = .caret) (row : Row us (data :: f :: fs)) (hm : metadataOf? data = some extra)
      (hg : annotate extra f t.pos = .ok g) : Row (t :: us) (g :: fs)
  | dropped {t : Located} {us : List Located} {f : Form} {fs : List Form} (ht : t.token = .discard)
      (row : Row us (f :: fs)) : Row (t :: us) fs

/-- The tokens spell one form, whatever row follows. -/
def Spells (ts : List Located) (f : Form) : Prop := ∀ us fs, Row us fs → Row (ts ++ us) (f :: fs)

/-! ## One step of the reader -/

section Step

variable {t : Located} {ts rest : List Located} {n : Nat} {f : Form}

theorem read_atom (h : atom? t = some f) : read (n + 1) (t :: ts) = .ok (f, ts) := by
  obtain ⟨token, pos⟩ := t
  cases token <;> simp only [atom?, Option.some.injEq, reduceCtorEq] at h <;> subst h <;> rfl

theorem read_opening {k : Enclosure} (h : opening? t.token = some k) : read (n + 1) (t :: ts) = do
    let (items, rest) ← readItems n k.bracket k.what t.pos ts
    return (← k.finish items t.pos, rest) := by
  obtain ⟨token, pos⟩ := t
  cases token <;> simp only [opening?, Option.some.injEq, reduceCtorEq] at h <;> subst h <;> rfl

theorem read_quoting {name : String} (h : quoting? t.token = some name) : read (n + 1) (t :: ts) = do
    let (quoted, rest) ← readOperand n t.pos ts
    return (placed (.list [sym name, quoted] none) t.pos, rest) := by
  obtain ⟨token, pos⟩ := t
  cases token <;> simp only [quoting?, Option.some.injEq, reduceCtorEq] at h <;> subst h <;> rfl

theorem read_discard (h : t.token = .discard) : read (n + 1) (t :: ts) = (do
    let (_, rest) ← read n ts
    read n rest) := by
  obtain ⟨token, pos⟩ := t
  obtain rfl := h
  rfl

theorem read_caret (h : t.token = .caret) : read (n + 1) (t :: ts) = do
    let (data, rest) ← readOperand n t.pos ts
    match metadataOf? data with
    | none => .error ⟨.badMetadata, t.pos⟩
    | some extra => do
      let (target, rest) ← readOperand n t.pos rest
      return (← annotate extra target t.pos, rest) := by
  obtain ⟨token, pos⟩ := t
  obtain rfl := h
  rfl

/-- A token that starts no form. -/
def isEnd (t : Token) : Prop := t = .eof ∨ ∃ b : Bracket, b.closes t = true

theorem read_end (h : isEnd t.token) : ∃ fault, read n (t :: ts) = .error fault := by
  cases n with
  | zero => exact ⟨_, rfl⟩
  | succ n =>
    obtain ⟨token, pos⟩ := t
    rcases h with rfl | ⟨b, hb⟩
    · exact ⟨_, rfl⟩
    · cases b <;> cases token <;> simp only [Bracket.closes, Bool.false_eq_true] at hb <;>
        exact ⟨_, rfl⟩

theorem read_nil : read n [] = .error ⟨.endOfInput, .start⟩ := by
  cases n <;> rfl

/-- Every token starts a form in one of these ways, or none. -/
theorem start_cases (t : Located) : (∃ f, atom? t = some f) ∨ (∃ k, opening? t.token = some k) ∨
    (∃ name, quoting? t.token = some name) ∨ t.token = .caret ∨ t.token = .discard ∨ isEnd t.token := by
  obtain ⟨token, pos⟩ := t
  cases token
  case closeParen => exact .inr (.inr (.inr (.inr (.inr (.inr ⟨.paren, rfl⟩)))))
  case closeBracket => exact .inr (.inr (.inr (.inr (.inr (.inr ⟨.square, rfl⟩)))))
  case closeBrace => exact .inr (.inr (.inr (.inr (.inr (.inr ⟨.curly, rfl⟩)))))
  all_goals simp [atom?, opening?, quoting?, isEnd]

theorem readOperand_eq_read {pos : Pos} (h : ¬ isEnd (tokenOf ts)) : readOperand (n + 1) pos ts = read n ts := by
  rw [readOperand]
  split
  · rename_i he
    exact absurd (.inl he) h
  · rfl

variable {bracket : Bracket} {what : String} {start : Pos}

theorem readItems_close (hc : bracket.closes t.token = true) :
    readItems (n + 1) bracket what start (t :: ts) = .ok ([], ts) := by
  rw [readItems]
  exact if_pos hc

theorem readItems_eof (he : tokenOf ts = .eof) :
    readItems n bracket what start ts = .error ⟨.unclosed what, start⟩ := by
  cases n with
  | zero => rfl
  | succ n =>
    rw [readItems]
    simp only [he]
    cases bracket <;> rfl

theorem readItems_discard (ht : t.token = .discard) : readItems (n + 1) bracket what start (t :: ts) = (do
    let (_, rest) ← read n ts
    readItems n bracket what start rest) := by
  obtain ⟨token, pos⟩ := t
  obtain rfl := ht
  rw [readItems]
  cases bracket <;> rfl

theorem readItems_item (hc : bracket.closes t.token = false) (he : t.token ≠ .eof) (hd : t.token ≠ .discard) :
    readItems (n + 1) bracket what start (t :: ts) = (do
      let (item, rest) ← read n (t :: ts)
      let (items, rest) ← readItems n bracket what start rest
      return (item :: items, rest)) := by
  obtain ⟨token, pos⟩ := t
  rw [readItems]
  cases token <;> simp_all [tokenOf]

end Step

/-! ## What was read is spelled by what was passed -/

theorem exists_of_bind {ε α β : Type} {x : Except ε α} {f : α → Except ε β} {b : β} (h : (x >>= f) = .ok b) :
    ∃ a, x = .ok a ∧ f a = .ok b := by
  cases x with
  | error e => cases h
  | ok a => exact ⟨a, rfl, h⟩

/-- A result of the reader is right: the tokens it passed spell the form. -/
def Passed (ts : List Located) (r : Form × List Located) : Prop := ∃ pre, ts = pre ++ r.2 ∧ Spells pre r.1

/-- Up to a bound of the nesting, whatever the reader accepts is spelled by the tokens it passed. -/
structure Sound (n : Nat) : Prop where
  form : ∀ {ts r}, read n ts = .ok r → Passed ts r
  operand : ∀ {pos ts r}, readOperand n pos ts = .ok r → Passed ts r
  items : ∀ {bracket what start ts r}, readItems n bracket what start ts = .ok r →
    ∃ pre c, ts = pre ++ c :: r.2 ∧ bracket.closes c.token = true ∧ Row pre r.1

section Steps

variable {n : Nat} {t : Located} {ts : List Located} {r : Form × List Located}

theorem Sound.opening {k : Enclosure} (hn : Sound n) (hk : opening? t.token = some k)
    (h : read (n + 1) (t :: ts) = .ok r) : Passed (t :: ts) r := by
  rw [read_opening hk] at h
  obtain ⟨⟨items, rest⟩, hitems, h⟩ := exists_of_bind h
  obtain ⟨f, hf, h⟩ := exists_of_bind h
  obtain rfl := Except.ok.inj h
  obtain ⟨pre, c, rfl, hc, row⟩ := hn.items hitems
  refine ⟨t :: (pre ++ [c]), by simp, fun us fs hus => ?_⟩
  have := Row.bracket hk hc row hf hus
  simpa using this

theorem Sound.quoting {name : String} (hn : Sound n) (hq : quoting? t.token = some name)
    (h : read (n + 1) (t :: ts) = .ok r) : Passed (t :: ts) r := by
  rw [read_quoting hq] at h
  obtain ⟨⟨f, rest⟩, hoperand, h⟩ := exists_of_bind h
  obtain rfl := Except.ok.inj h
  obtain ⟨pre, rfl, hpre⟩ := hn.operand hoperand
  exact ⟨t :: pre, rfl, fun us fs hus => .quoted hq (hpre us fs hus)⟩

theorem Sound.caret (hn : Sound n) (ht : t.token = .caret) (h : read (n + 1) (t :: ts) = .ok r) :
    Passed (t :: ts) r := by
  rw [read_caret ht] at h
  obtain ⟨⟨data, mid⟩, hdata, h⟩ := exists_of_bind h
  dsimp only at h
  split at h
  · cases h
  · rename_i extra hextra
    obtain ⟨⟨f, rest⟩, hoperand, h⟩ := exists_of_bind h
    obtain ⟨g, hg, h⟩ := exists_of_bind h
    obtain rfl := Except.ok.inj h
    obtain ⟨pre, rfl, hpre⟩ := hn.operand hdata
    obtain ⟨pre', rfl, hpre'⟩ := hn.operand hoperand
    refine ⟨t :: (pre ++ pre'), by simp, fun us fs hus => ?_⟩
    have := hpre _ _ (hpre' us fs hus)
    rw [List.cons_append, List.append_assoc]
    exact .annotated ht this hextra hg

theorem Sound.discard (hn : Sound n) (ht : t.token = .discard) (h : read (n + 1) (t :: ts) = .ok r) :
    Passed (t :: ts) r := by
  rw [read_discard ht] at h
  obtain ⟨⟨f, mid⟩, hf, hg⟩ := exists_of_bind h
  obtain ⟨pre, rfl, hpre⟩ := hn.form hf
  obtain ⟨pre', hmid, hpre'⟩ := hn.form (r := r) hg
  refine ⟨t :: (pre ++ pre'), by simp [hmid], fun us fs hus => ?_⟩
  have := hpre _ _ (hpre' us fs hus)
  rw [List.cons_append, List.append_assoc]
  exact .dropped ht this

theorem Sound.read_succ (hn : Sound n) (h : read (n + 1) ts = .ok r) : Passed ts r := by
  cases ts with
  | nil => rw [read_nil] at h; cases h
  | cons t ts =>
    rcases start_cases t with ⟨f, hf⟩ | ⟨k, hk⟩ | ⟨name, hq⟩ | ht | ht | ht
    · rw [read_atom hf] at h
      obtain rfl := Except.ok.inj h
      exact ⟨[t], rfl, fun us fs hus => .atom hf hus⟩
    · exact hn.opening hk h
    · exact hn.quoting hq h
    · exact hn.caret ht h
    · exact hn.discard ht h
    · obtain ⟨fault, hfault⟩ := @read_end t ts (n + 1) ht
      rw [hfault] at h
      cases h

theorem Sound.items_succ {bracket : Bracket} {what : String} {start : Pos} {q : List Form × List Located}
    (hn : Sound n) (h : readItems (n + 1) bracket what start ts = .ok q) :
    ∃ pre c, ts = pre ++ c :: q.2 ∧ bracket.closes c.token = true ∧ Row pre q.1 := by
  by_cases he : tokenOf ts = .eof
  · rw [readItems_eof he] at h
    cases h
  obtain ⟨t, ts, rfl⟩ : ∃ t us, ts = t :: us := by
    cases ts with
    | nil => exact absurd rfl he
    | cons t us => exact ⟨t, us, rfl⟩
  by_cases hc : bracket.closes t.token = true
  · rw [readItems_close hc] at h
    obtain rfl := Except.ok.inj h
    exact ⟨[], t, rfl, hc, .done⟩
  by_cases hd : t.token = .discard
  · rw [readItems_discard hd] at h
    obtain ⟨⟨f, mid⟩, hf, hg⟩ := exists_of_bind h
    obtain ⟨pre, rfl, hpre⟩ := hn.form hf
    obtain ⟨pre', c, hmid, hc, row⟩ := hn.items (r := q) hg
    refine ⟨t :: (pre ++ pre'), c, ?_, hc, .dropped hd (hpre _ _ row)⟩
    dsimp only at hmid ⊢
    rw [hmid]
    simp
  · rw [readItems_item (by simpa using hc) he hd] at h
    obtain ⟨⟨f, mid⟩, hf, h⟩ := exists_of_bind h
    obtain ⟨⟨fs, rest⟩, hfs, h⟩ := exists_of_bind h
    obtain rfl := Except.ok.inj h
    obtain ⟨pre, hts, hpre⟩ := hn.form hf
    obtain ⟨pre', c, hmid, hc, row⟩ := hn.items hfs
    refine ⟨pre ++ pre', c, ?_, hc, hpre _ _ row⟩
    dsimp only at hts hmid ⊢
    rw [hts, hmid]
    simp

end Steps

/-- **Whatever the reader accepts is spelled by the tokens it passed.** -/
theorem sound : ∀ n, Sound n
  | 0 => by
    constructor
    · intro ts r h
      rw [read] at h
      cases h
    · intro pos ts r h
      rw [readOperand] at h
      cases h
    · intro bracket what start ts r h
      rw [readItems] at h
      cases h
  | n + 1 => by
    have hn := sound n
    constructor
    · intro ts r h
      exact hn.read_succ h
    · intro pos ts r h
      rw [readOperand] at h
      split at h
      · cases h
      · exact hn.form h
    · intro bracket what start ts r h
      exact hn.items_succ h

end LispMachine.Form
