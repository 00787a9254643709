import LispMachine.Form.Printer
import LispMachine.Proofs.Double.RoundTrip
import LispMachine.Proofs.Token.Lexes
/-!
# Tokens are scanned as they are written

A text writes a token if it is scanned as this token wherever a separator or a closing bracket follows
(`Writes`).  Every atom is written so by the printer, and the symbols and keywords that come out of a text are
written by their own characters (`legible_of_scan`).
-/
namespace LispMachine.Token

variable {cs ds rest text : List Char} {c : Char} {t : Token} {ts : List Token} {o : Option LexError}

/-! ## Texts of tokens -/

/-- The text stands apart from a token in front of it. -/
def Apart (rest : List Char) : Prop := ∀ c ∈ rest.head?, c = ' ' ∨ c = ',' ∨ c = ')' ∨ c = ']' ∨ c = '\x7d'

/-- A text that is scanned as one token, provided that it stands apart from what follows. -/
structure Writes (text : List Char) (t : Token) : Prop where
  solid : ∃ c cs, text = c :: cs ∧ Solid c
  scan : ∀ rest, Apart rest → Token.scan (text ++ rest) = .ok (t, rest)

theorem lexes_solid (hc : Solid c) (h : Token.scan (c :: cs) = .ok (t, rest)) (tail : Lexes rest ts o) :
    Lexes (c :: cs) (t :: ts) o := by
  refine .token ?_ (leaves_scan c cs t rest h).1 tail
  rw [skipBlanks_solid hc]
  exact h

theorem Writes.lexes (h : Writes text t) (hr : Apart rest) (tail : Lexes rest ts o) :
    Lexes (text ++ rest) (t :: ts) o := by
  obtain ⟨c, cs, rfl, hc⟩ := h.solid
  exact lexes_solid hc (h.scan rest hr) tail

/-- A text that is scanned as one token, whatever follows. -/
structure Marks (text : List Char) (t : Token) : Prop where
  solid : ∃ c cs, text = c :: cs ∧ Solid c
  scan : ∀ rest, Token.scan (text ++ rest) = .ok (t, rest)

theorem Marks.lexes (h : Marks text t) (tail : Lexes rest ts o) : Lexes (text ++ rest) (t :: ts) o := by
  obtain ⟨c, cs, rfl, hc⟩ := h.solid
  exact lexes_solid hc (h.scan rest) tail

theorem marks_openParen : Marks ['('] .openParen := ⟨⟨_, _, rfl, by decide⟩, fun _ => rfl⟩

theorem marks_closeParen : Marks [')'] .closeParen := ⟨⟨_, _, rfl, by decide⟩, fun _ => rfl⟩

theorem marks_openBracket : Marks ['['] .openBracket := ⟨⟨_, _, rfl, by decide⟩, fun _ => rfl⟩

theorem marks_closeBracket : Marks [']'] .closeBracket := ⟨⟨_, _, rfl, by decide⟩, fun _ => rfl⟩

theorem marks_openBrace : Marks ['\x7b'] .openBrace := ⟨⟨_, _, rfl, by decide⟩, fun _ => rfl⟩

theorem marks_openSet : Marks ['#', '\x7b'] .openSet := ⟨⟨_, _, rfl, by decide⟩, fun _ => rfl⟩

theorem marks_closeBrace : Marks ['\x7d'] .closeBrace := ⟨⟨_, _, rfl, by decide⟩, fun _ => rfl⟩

/-! ## Names -/

theorem not_isSymbolPart_of_apart (h : c = ' ' ∨ c = ',' ∨ c = ')' ∨ c = ']' ∨ c = '\x7d') :
    isSymbolPart c = false :=
  (not_part (by rcases h with rfl | rfl | rfl | rfl | rfl <;> decide)).1

theorem not_isWordPart_of_apart (h : c = ' ' ∨ c = ',' ∨ c = ')' ∨ c = ']' ∨ c = '\x7d') :
    isWordPart c = false :=
  (not_part (by rcases h with rfl | rfl | rfl | rfl | rfl <;> decide)).2

/-- A run of characters of a class ends where a character that is not in it follows. -/
theorem span_of_head? {p : Char → Bool} (hcs : ∀ c ∈ cs, p c = true) (hr : ∀ c ∈ rest.head?, p c = false) :
    (cs ++ rest).takeWhile p = cs ∧ (cs ++ rest).dropWhile p = rest := by
  rw [List.takeWhile_append_of_pos hcs, List.dropWhile_append_of_pos hcs]
  cases rest with
  | nil => simp
  | cons c rest => simp [hr c rfl]

theorem Apart.span_name (hr : Apart rest) (hcs : ∀ c ∈ cs, isSymbolPart c = true) :
    (cs ++ rest).takeWhile isSymbolPart = cs ∧ (cs ++ rest).dropWhile isSymbolPart = rest :=
  span_of_head? hcs fun c hc => not_isSymbolPart_of_apart (hr c hc)

theorem Apart.startsWithDigit (hr : Apart rest) : Token.startsWithDigit rest = false := by
  cases rest with
  | nil => rfl
  | cons c rest => rcases hr c rfl with rfl | rfl | rfl | rfl | rfl <;> rfl

/-- A name is written by its characters: it starts like a name, or with a sign that no digit follows. -/
theorem writes_name (hc : Solid c) (hcs : cs.all isSymbolPart = true)
    (hs : startOf c = .name ∨ startOf c = .sign ∧ startsWithDigit cs = false) :
    Writes (c :: cs) (ofName (String.ofList (c :: cs))) := by
  refine ⟨⟨c, cs, rfl, hc⟩, fun rest hr => ?_⟩
  have hfits := fits_startOf c
  have hpart : isSymbolPart c = true := by
    rcases hs with h | ⟨h, -⟩
    · rw [h] at hfits
      exact isSymbolPart_of_start hfits.1
    · rw [h] at hfits
      rcases hfits with rfl | rfl <;> decide
  obtain ⟨htake, hdrop⟩ := hr.span_name (List.forall_mem_cons.mpr ⟨hpart, List.all_eq_true.mp hcs⟩)
  have hsymbol : scanSymbol (c :: cs ++ rest) = (ofName (String.ofList (c :: cs)), rest) := by
    rw [scanSymbol, htake, hdrop]
  rw [List.cons_append] at hsymbol ⊢
  rw [scan_cons]
  rcases hs with h | ⟨h, hdigit⟩
  · rw [h]
    exact congrArg Except.ok hsymbol
  · have : startsWithDigit (cs ++ rest) = false := by
      cases cs with
      | nil => exact hr.startsWithDigit
      | cons d cs => exact hdigit
    rw [h]
    dsimp only [Start.scan]
    rw [this]
    exact congrArg Except.ok hsymbol

theorem writes_keyword (hcs : ∀ d ∈ cs, isSymbolPart d = true) (hne : cs ≠ []) (hcolon : cs.head? ≠ some ':')
    (hslash : cs.getLast? ≠ some '/') : Writes (':' :: cs) (.keyword (String.ofList cs)) := by
  refine ⟨⟨':', cs, rfl, by decide⟩, fun rest hr => ?_⟩
  obtain ⟨htake, hdrop⟩ := hr.span_name hcs
  rw [List.cons_append, scan_cons, show startOf ':' = .keyword from rfl]
  dsimp only [Start.scan]
  unfold scanKeyword
  simp only [htake, hdrop]
  rw [if_neg]
  simp [hne, hcolon, hslash]

/-! ## Characters and strings -/

theorem namedChar?_singleton (c : Char) : namedChar? [c] = some c := by
  unfold namedChar?
  have hlen (s : String) (hs : 1 < s.toList.length) : String.ofList [c] ≠ s := by
    rintro rfl
    simp at hs
  split
  · exact absurd ‹_› (hlen "newline" (by decide))
  · exact absurd ‹_› (hlen "space" (by decide))
  · exact absurd ‹_› (hlen "tab" (by decide))
  · exact absurd ‹_› (hlen "return" (by decide))
  · rfl

theorem namedChar?_nil : namedChar? [] = none := by decide

/-- A name after a backslash writes the character that it stands for. -/
theorem writes_char (hcs : cs.all isWordPart = true) {d : Char} (hd : namedChar? (c :: cs) = some d) :
    Writes ('\\' :: c :: cs) (.char d) := by
  refine ⟨⟨'\\', c :: cs, rfl, by decide⟩, fun rest hr => ?_⟩
  obtain ⟨htake, hdrop⟩ := span_of_head? (List.all_eq_true.mp hcs) fun c hc => not_isWordPart_of_apart (hr c hc)
  rw [List.cons_append, scan_cons, show startOf '\\' = .char from rfl]
  simp only [Start.scan, scanChar, List.cons_append, htake, hdrop, hd]

theorem writes_charLiteral (c : Char) : Writes (Text.charLiteral c).toList (.char c) := by
  unfold Text.charLiteral
  split
  · have : Writes ('\\' :: 'n' :: ['e', 'w', 'l', 'i', 'n', 'e']) (.char '\n') := writes_char (by decide +kernel) (by decide)
    simpa using this
  · have : Writes ('\\' :: 's' :: ['p', 'a', 'c', 'e']) (.char ' ') := writes_char (by decide +kernel) (by decide)
    simpa using this
  · have : Writes ('\\' :: 't' :: ['a', 'b']) (.char '\t') := writes_char (by decide +kernel) (by decide)
    simpa using this
  · have : Writes ['\\', c] (.char c) := writes_char (by simp) (namedChar?_singleton c)
    simpa using this

theorem scanString_escaped (s : List Char) : ∀ acc : List Char,
    scanString acc (s.flatMap Text.escapeChar ++ '"' :: rest) = .ok (.str (String.ofList (acc.reverse ++ s)), rest) := by
  induction s with
  | nil =>
    intro acc
    simp [scanString]
  | cons c s ih =>
    intro acc
    have hstep : scanString acc (Text.escapeChar c ++ (s.flatMap Text.escapeChar ++ '"' :: rest)) =
        scanString (c :: acc) (s.flatMap Text.escapeChar ++ '"' :: rest) := by
      unfold Text.escapeChar
      split
      · rfl
      · rfl
      · rfl
      · rfl
      · rfl
      · rename_i hquote hslash _ _ _
        rw [List.singleton_append, scanString]
        · exact hquote
        · exact fun h _ => hslash h
        · exact fun _ _ h _ => hslash h
    rw [List.flatMap_cons, List.append_assoc, hstep, ih]
    simp

theorem writes_quoted (s : String) : Writes (Text.quoted s).toList (.str s) := by
  rw [Text.quoted, String.toList_ofList]
  refine ⟨⟨'"', _, rfl, by decide⟩, fun rest _ => ?_⟩
  rw [List.cons_append, List.cons_append, scan_cons, show startOf '"' = .string from rfl]
  dsimp only [Start.scan]
  rw [List.append_assoc]
  exact (scanString_escaped s.toList []).trans (by simp)

/-! ## Numbers -/

/-- Digits are taken into a numeral. -/
theorem spanNumeral_digits (hcs : ∀ d ∈ cs, d.isDigit = true) (seen : Bool) (ds : List Char) :
    spanNumeral seen (cs ++ ds) = { spanNumeral seen ds with text := cs ++ (spanNumeral seen ds).text } := by
  induction cs with
  | nil => rfl
  | cons c cs ih =>
    obtain ⟨hc, hcs⟩ := List.forall_mem_cons.mp hcs
    rw [List.cons_append, spanNumeral_digit hc, ih hcs]
    rfl

theorem Apart.spanNumeral (hr : Apart rest) (seen : Bool) : Token.spanNumeral seen rest = ⟨[], seen, false, rest⟩ := by
  cases rest with
  | nil => rfl
  | cons c rest =>
    have hpart := not_isSymbolPart_of_apart (hr c rfl)
    conv => lhs; unfold Token.spanNumeral
    rcases hr c rfl with rfl | rfl | rfl | rfl | rfl <;> simp [hpart]

theorem spanNumeral_whole (hcs : ∀ d ∈ cs, d.isDigit = true) (hr : Apart rest) :
    spanNumeral false (cs ++ rest) = ⟨cs, false, false, rest⟩ := by
  rw [spanNumeral_digits hcs, hr.spanNumeral]
  simp

theorem spanNumeral_pointed {A B : List Char} (h : Double.Pointed A B) (hr : Apart rest) :
    spanNumeral false ((A ++ '.' :: B) ++ rest) = ⟨A ++ '.' :: B, true, false, rest⟩ := by
  have hpoint : spanNumeral false ('.' :: (B ++ rest)) = (spanNumeral true (B ++ rest)).cons '.' := by
    conv => lhs; unfold spanNumeral
    rfl
  rw [List.append_assoc, spanNumeral_digits h.whole, List.cons_append, hpoint, spanNumeral_digits h.fraction,
    hr.spanNumeral]
  simp [Numeral.cons]

theorem startOf_eq_digit (hc : c.isDigit = true) : startOf c = .digit := by
  have hne (d : Char) (hd : d.isDigit = false) : ¬ c = d := by
    rintro rfl
    rw [hc] at hd
    cases hd
  unfold startOf
  rw [if_neg (hne '(' rfl), if_neg (hne ')' rfl), if_neg (hne '[' rfl), if_neg (hne ']' rfl), if_neg (hne '\x7b' rfl),
    if_neg (hne '\x7d' rfl), if_neg (hne '\x27' rfl), if_neg (hne '^' rfl), if_neg (hne '#' rfl), if_neg (hne '"' rfl),
    if_neg (hne '\\' rfl), if_neg (hne ':' rfl), if_neg (by simp [hne '-' rfl, hne '+' rfl]), if_pos hc]

/-- An optional minus sign and digits are scanned as a number. -/
theorem scan_number (negative : Bool) (hc : c.isDigit = true) (cs : List Char) :
    scan ((Double.sign negative).toList ++ c :: cs) = scanNumber negative (c :: cs) := by
  cases negative with
  | true =>
    change scan ('-' :: c :: cs) = _
    rw [scan_cons, show startOf '-' = .sign from rfl]
    dsimp only [Start.scan]
    rw [if_pos (by exact hc)]
    rfl
  | false =>
    change scan (c :: cs) = _
    rw [scan_cons, startOf_eq_digit hc]
    rfl

theorem solid_of_isDigit (hc : c.isDigit = true) : Solid c := by
  simp only [Char.isDigit, Bool.and_eq_true, decide_eq_true_eq, UInt32.le_iff_toNat_le, ge_iff_le] at hc
  have h0 : '0'.val.toNat = 48 := rfl
  have h9 : '9'.val.toNat = 57 := rfl
  refine ⟨?_, ?_, ?_⟩
  · have hnat : c.toNat = c.val.toNat := rfl
    simp only [Text.isBlank, Text.blankRanges, Text.inRanges, hnat]
    rw [if_neg (by omega), if_neg (by omega), if_neg (by omega), if_neg (by omega), if_pos (by omega)]
  · rintro rfl
    exact absurd hc.1 (by decide)
  · rintro rfl
    exact absurd hc.2 (by decide)

theorem ofList_sign (negative : Bool) (cs : List Char) :
    String.ofList (if negative then '-' :: cs else cs) = Double.sign negative ++ String.ofList cs := by
  rw [← String.toList_inj]
  cases negative <;> simp [Double.sign]

/-- A number is written by an optional minus sign and a numeral that starts with a digit. -/
theorem writes_number (negative : Bool) (hc : c.isDigit = true) {n : Bool}
    (hspan : ∀ rest, Apart rest → spanNumeral false (c :: (cs ++ rest)) = ⟨c :: cs, n, false, rest⟩)
    (ht : (if n then (Double.read? (Double.sign negative ++ String.ofList (c :: cs))).map .double
      else (longOf? negative (c :: cs)).map .long) = some t) :
    Writes (Double.sign negative ++ String.ofList (c :: cs)).toList t := by
  rw [String.toList_append, String.toList_ofList]
  constructor
  · cases negative with
    | true => exact ⟨'-', c :: cs, rfl, by decide⟩
    | false => exact ⟨c, cs, rfl, solid_of_isDigit hc⟩
  · intro rest hr
    rw [List.append_assoc, List.cons_append, scan_number negative hc]
    unfold scanNumber
    simp only [hspan rest hr, ofList_sign]
    cases n with
    | true =>
      obtain ⟨d, hd, rfl⟩ := Option.map_eq_some_iff.mp ht
      rw [hd]
      rfl
    | false =>
      obtain ⟨k, hk, rfl⟩ := Option.map_eq_some_iff.mp ht
      simp only [hk]
      rfl

theorem writes_long (n : Int64) : Writes (toString n.toInt).toList (.long n) := by
  obtain ⟨negative, m, htext, hlong⟩ : ∃ (negative : Bool) (m : Nat),
      toString n.toInt = Double.sign negative ++ String.ofList (Nat.toDigits 10 m) ∧
        longOf? negative (Nat.toDigits 10 m) = some n := by
    have hvalue (m : Nat) : Double.digitsValue (Nat.toDigits 10 m) = m := by
      rw [Double.digitsValue_eq, Nat.ofDigitChars_ten_toDigits]
    have hlow := n.le_toInt
    have hhigh := n.toInt_lt
    have hn := Int64.ofInt_toInt n
    generalize n.toInt = x at *
    rcases x with m | k
    · refine ⟨false, m, ?_, ?_⟩
      · change toString m = _
        rw [Nat.toString_eq_ofList_toDigits, Double.sign]
        simp
      · have hm : m < Nat.pow 2 63 := by
          simp only [Nat.pow_eq, Int.ofNat_eq_natCast] at hhigh ⊢
          omega
        simp only [longOf?, hvalue, Bool.false_eq_true, if_false, if_pos hm]
        exact congrArg some hn
    · refine ⟨true, k + 1, ?_, ?_⟩
      · change "-" ++ toString (k + 1) = _
        rw [Nat.toString_eq_ofList_toDigits]
        rfl
      · have hk : k + 1 ≤ Nat.pow 2 63 := by
          simp only [Nat.pow_eq]
          omega
        simp only [longOf?, hvalue, if_true, if_pos hk]
        exact congrArg some hn
  obtain ⟨c, cs, hcs⟩ := List.exists_cons_of_ne_nil (Nat.toDigits_ne_nil (n := m) (b := 10))
  have hdigits : ∀ d ∈ c :: cs, d.isDigit = true := by
    rw [← hcs]
    exact fun d hd => Double.isDigit_of_mem_toDigits hd
  rw [htext, hcs]
  apply writes_number negative (hdigits c List.mem_cons_self)
  · intro rest hr
    exact spanNumeral_whole hdigits hr
  · rw [hcs] at hlong
    simp [hlong]

theorem writes_double {d : Float} {p : Double.Parts} (h : Double.classify d = .finite p) :
    Writes (Double.render d).toList (.double d) := by
  obtain ⟨A, B, hAB, htext, hd⟩ := Double.render_eq_pointed h
  obtain ⟨a, A', rfl⟩ := List.exists_cons_of_ne_nil hAB.ne_nil
  rw [htext, List.cons_append]
  apply writes_number p.negative (hAB.whole a List.mem_cons_self)
  · intro rest hr
    have := spanNumeral_pointed hAB hr
    simpa using this
  · have := Double.read?_pointed p.negative hAB
    rw [List.cons_append] at this
    rw [if_pos rfl, this, ← hd]
    rfl

/-! ## Constants -/

theorem constant_parts : ∀ text ∈ [['n', 'i', 'l'], ['t', 'r', 'u', 'e'], ['f', 'a', 'l', 's', 'e']],
    text.tail.all isSymbolPart = true := by
  decide +kernel

theorem writes_nil : Writes ['n', 'i', 'l'] .nil :=
  writes_name (by decide) (constant_parts ['n', 'i', 'l'] (by decide)) (.inl rfl)

theorem writes_true : Writes ['t', 'r', 'u', 'e'] (.bool true) :=
  writes_name (by decide) (constant_parts ['t', 'r', 'u', 'e'] (by decide)) (.inl rfl)

theorem writes_false : Writes ['f', 'a', 'l', 's', 'e'] (.bool false) :=
  writes_name (by decide) (constant_parts ['f', 'a', 'l', 's', 'e'] (by decide)) (.inl rfl)

/-! ## Tokens of a text -/

/-- A name is written by its characters, and no double is not a number. -/
def Legible : Token → Prop
  | .symbol s => Writes s.toList (.symbol s)
  | .keyword k => Writes (':' :: k.toList) (.keyword k)
  | .double d => d ≠ Float.nan
  | _ => True

theorem scanString_eq_str {acc : List Char} (h : scanString acc cs = .ok (t, rest)) : ∃ s, t = .str s := by
  fun_induction scanString acc cs with
  | case1 | case3 | case9 => cases h
  | case2 =>
    obtain ⟨rfl, -⟩ := Prod.mk.inj (Except.ok.inj h)
    exact ⟨_, rfl⟩
  | case4 _ _ ih | case5 _ _ ih | case6 _ _ ih | case7 _ _ ih | case8 _ _ ih => exact ih h
  | case10 _ _ _ _ _ _ ih => exact ih h

theorem legible_scanHash (h : scanHash cs = .ok (t, rest)) : t.Legible := by
  unfold scanHash at h
  split at h
  · cases h
  · split at h
    · obtain ⟨rfl, -⟩ := Prod.mk.inj (Except.ok.inj h)
      trivial
    · split at h
      · obtain ⟨rfl, -⟩ := Prod.mk.inj (Except.ok.inj h)
        trivial
      · split at h
        · obtain ⟨rfl, -⟩ := Prod.mk.inj (Except.ok.inj h)
          trivial
        · cases h

theorem legible_scanChar (h : scanChar cs = .ok (t, rest)) : t.Legible := by
  cases cs with
  | nil =>
    simp only [scanChar, namedChar?_nil, reduceCtorEq] at h
  | cons c cs =>
    unfold scanChar at h
    dsimp only at h
    cases hc : namedChar? (c :: cs.takeWhile isWordPart) with
    | some d =>
      rw [hc] at h
      obtain ⟨rfl, -⟩ := Prod.mk.inj (Except.ok.inj h)
      trivial
    | none =>
      rw [hc] at h
      cases h

theorem legible_scanKeyword (h : scanKeyword cs = .ok (t, rest)) : t.Legible := by
  unfold scanKeyword at h
  dsimp only at h
  split at h
  · cases h
  · rename_i hname
    obtain ⟨rfl, -⟩ := Prod.mk.inj (Except.ok.inj h)
    simp only [Bool.or_eq_true, List.isEmpty_iff, beq_iff_eq, not_or] at hname
    obtain ⟨⟨hne, hcolon⟩, hslash⟩ := hname
    have := writes_keyword (fun d hd => List.mem_takeWhile_imp hd) hne hcolon hslash
    rw [Legible, String.toList_ofList]
    exact this

/-- A number that starts with a digit. -/
theorem legible_scanNumber {negative : Bool} (hc : startsWithDigit cs = true)
    (h : scanNumber negative cs = .ok (t, rest)) : t.Legible := by
  obtain ⟨c, cs, rfl⟩ : ∃ c ds, cs = c :: ds := by
    cases cs with
    | nil => cases hc
    | cons c cs => exact ⟨c, cs, rfl⟩
  unfold scanNumber at h
  rw [spanNumeral_digit hc] at h
  generalize spanNumeral false cs = n at h
  dsimp only [Numeral.cons] at h
  split at h
  · cases h
  · split at h
    · split at h
      · rename_i d hd
        obtain ⟨rfl, -⟩ := Prod.mk.inj (Except.ok.inj h)
        rintro rfl
        rw [ofList_sign] at hd
        exact Double.read?_ne_nan negative hc n.text hd
      · cases h
    · split at h
      · obtain ⟨rfl, -⟩ := Prod.mk.inj (Except.ok.inj h)
        trivial
      · cases h

/-- The name at the head of a text is written by its characters. -/
theorem legible_scanSymbol (hc : Solid c) (hs : startOf c = .name ∨ startOf c = .sign ∧ startsWithDigit cs = false)
    (hpart : isSymbolPart c = true) (h : scanSymbol (c :: cs) = (t, rest)) : t.Legible := by
  unfold scanSymbol at h
  rw [List.takeWhile_cons_of_pos hpart] at h
  obtain ⟨rfl, -⟩ := Prod.mk.inj h
  have hs' : startOf c = .name ∨ startOf c = .sign ∧ startsWithDigit (cs.takeWhile isSymbolPart) = false := by
    rcases hs with hs | ⟨hs, hdigit⟩
    · exact .inl hs
    · refine .inr ⟨hs, ?_⟩
      cases cs with
      | nil => rfl
      | cons d cs =>
        rw [List.takeWhile_cons]
        split
        · exact hdigit
        · rfl
  have hall : (cs.takeWhile isSymbolPart).all isSymbolPart = true :=
    List.all_eq_true.mpr fun d hd => List.mem_takeWhile_imp hd
  have hwrites := writes_name hc hall hs'
  generalize c :: cs.takeWhile isSymbolPart = name at hwrites
  generalize htext : String.ofList name = text at hwrites ⊢
  have hname : name = text.toList := by rw [← htext, String.toList_ofList]
  rw [hname] at hwrites
  unfold ofName at hwrites ⊢
  split at hwrites
  · trivial
  · trivial
  · trivial
  · exact hwrites

/-- **Whatever is scanned can be written.** -/
theorem legible_of_scan (h : scan (skipBlanks cs) = .ok (t, rest)) : t.Legible := by
  cases hs : skipBlanks cs with
  | nil =>
    rw [hs] at h
    obtain ⟨rfl, -⟩ := Prod.mk.inj (Except.ok.inj h)
    trivial
  | cons c ds =>
    have hsolid := skipBlanks_cons hs
    have hfits := fits_startOf c
    rw [hs, scan_cons] at h
    cases hstart : startOf c with
    | mark t' =>
      rw [hstart] at h hfits
      obtain ⟨rfl, -⟩ := Prod.mk.inj (Except.ok.inj h)
      cases t' <;> trivial
    | hash =>
      rw [hstart] at h
      exact legible_scanHash h
    | string =>
      rw [hstart] at h
      obtain ⟨s, rfl⟩ := scanString_eq_str h
      trivial
    | char =>
      rw [hstart] at h
      exact legible_scanChar h
    | keyword =>
      rw [hstart] at h
      exact legible_scanKeyword h
    | sign =>
      rw [hstart] at h hfits
      dsimp only [Start.scan] at h
      split at h
      · rename_i hdigit
        exact legible_scanNumber hdigit h
      · rename_i hdigit
        have hpart : isSymbolPart c = true := by
          rcases hfits with rfl | rfl <;> decide
        exact legible_scanSymbol hsolid (.inr ⟨hstart, by simpa using hdigit⟩) hpart (Except.ok.inj h)
    | digit =>
      rw [hstart] at h hfits
      have hdigit : startsWithDigit (c :: ds) = true := hfits
      exact legible_scanNumber hdigit h
    | name =>
      rw [hstart] at h hfits
      exact legible_scanSymbol hsolid (.inl hstart) (isSymbolPart_of_start hfits.1) (Except.ok.inj h)
    | none =>
      rw [hstart] at h
      cases h

theorem Lexes.legible (h : Lexes cs ts o) : ∀ t ∈ ts, t.Legible := by
  induction h with
  | done | fault =>
    intro _ ht
    cases ht
  | token h _ _ ih => exact List.forall_mem_cons.mpr ⟨legible_of_scan h, ih⟩

end LispMachine.Token
