import LispMachine.Proofs.Token.Lexes
/-!
# Texts cut between lines

A text that is cut behind a line break is cut into the tokens of the two parts, unless the break lies in an open
string (`Lexes.split`): a scanner stops at a break or takes it as its last character.  A text that is cut in front
of a line break has the tokens of the two parts in any case (`Lexes.append_break`).
-/
namespace LispMachine.Token

variable {P Q T cs rest : List Char} {c : Char} {t : Token} {ts us : List Token} {o : Option LexError}

/-- There is a line break on one side of the place where a text is cut. -/
def Broken (P Q : List Char) : Prop := P.getLast? = some '\n' ∨ Q.head? = some '\n'

theorem Broken.tail (h : Broken (c :: P) Q) (hc : c ≠ '\n') : Broken P Q := by
  rcases h with h | h
  · cases P with
    | nil => exact absurd (by simpa using h) hc
    | cons d P => exact .inl (by simpa using h)
  · exact .inr h

theorem Broken.cons (h : Broken P Q) (c : Char) : Broken (c :: P) Q := by
  rcases h with h | h
  · exact .inl (by simp [List.getLast?_cons, h])
  · exact .inr h

theorem broken_nil (h : Broken [] Q) : ∃ R, Q = '\n' :: R := by
  rcases h with h | h
  · cases h
  · exact List.head?_eq_some_iff.mp h

theorem getLast?_of_suffix (h : T <:+ P) (hT : T ≠ []) : P.getLast? = T.getLast? := by
  obtain ⟨A, rfl⟩ := h
  rw [List.getLast?_append, Option.or_of_isSome (by simpa using hT)]

/-- The last line of a text is ended. -/
def Ended (P : List Char) : Prop := P = [] ∨ P.getLast? = some '\n'

theorem Ended.suffix (h : Ended P) (hs : T <:+ P) : Ended T := by
  by_cases hT : T = []
  · exact .inl hT
  · rcases h with rfl | h
    · exact .inl (List.suffix_nil.mp hs)
    · exact .inr ((getLast?_of_suffix hs hT).symm.trans h)

theorem Broken.suffix (h : Broken P Q) (hs : T <:+ P) : T = [] ∨ Broken T Q := by
  by_cases hT : T = []
  · exact .inl hT
  · rw [Broken, getLast?_of_suffix hs hT] at h
    exact .inr h

theorem Broken.of_append_cons (h : Broken P Q) {d : Char} {ds : List Char} (heq : P ++ Q = d :: ds) (hd : d ≠ '\n') :
    ∃ es, P = d :: es := by
  cases P with
  | nil =>
    obtain ⟨R, rfl⟩ := broken_nil h
    exact absurd (List.cons.inj heq).1.symm hd
  | cons e P =>
    obtain ⟨rfl, -⟩ := List.cons.inj heq
    exact ⟨P, rfl⟩

/-! ## Blanks -/

/-- A comment ends at the line break in front of the cut, or at the one behind it. -/
theorem skipComment_append (h : Broken P Q) : skipComment (P ++ Q) = skipComment P ++ Q ∨
    skipComment P = [] ∧ ∃ R, Q = '\n' :: R ∧ skipComment (P ++ Q) = R := by
  induction P with
  | nil =>
    obtain ⟨R, rfl⟩ := broken_nil h
    exact .inr ⟨rfl, R, rfl, rfl⟩
  | cons c P ih =>
    rw [List.cons_append, skipComment, skipComment]
    by_cases hc : c = '\n'
    · rw [if_pos hc, if_pos hc]
      exact .inl rfl
    · rw [if_neg hc, if_neg hc]
      exact ih (h.tail hc)

/-- Blanks are skipped across the cut only if nothing else stands in front of it. -/
theorem skipBlanks_append (h : P = [] ∨ Broken P Q) : skipBlanks P = [] ∧ skipBlanks (P ++ Q) = skipBlanks Q ∨
    skipBlanks P ≠ [] ∧ skipBlanks (P ++ Q) = skipBlanks P ++ Q := by
  fun_induction skipBlanks P with
  | case1 => exact .inl ⟨rfl, rfl⟩
  | case2 c cs hblank ih =>
    rw [List.cons_append, skipBlanks, if_pos hblank]
    rcases h with h | h
    · cases h
    · exact ih (h.suffix (List.suffix_cons _ _))
  | case3 cs hblank ih =>
    rw [List.cons_append, skipBlanks, if_neg hblank, if_pos rfl]
    rcases h with h | h
    · cases h
    · have hcs : Broken cs Q := h.tail (by decide)
      rcases skipComment_append hcs with heq | ⟨hnil, R, rfl, heq⟩
      · rw [heq]
        exact ih (hcs.suffix (skipComment_suffix cs))
      · rw [heq, hnil, skipBlanks, show skipBlanks ('\n' :: R) = skipBlanks R by rw [skipBlanks, if_pos (by decide)]]
        exact .inl ⟨rfl, rfl⟩
  | case4 c cs hblank hcomment =>
    refine .inr ⟨List.cons_ne_nil _ _, ?_⟩
    rw [List.cons_append, skipBlanks, if_neg hblank, if_neg hcomment]

/-! ## Scanners -/

/-- A scan that goes on to leave more text. -/
def followed (Q : List Char) (x : Scanned) : Scanned := x.map fun p => (p.1, p.2 ++ Q)

theorem of_followed {x : Scanned} (h : followed Q x = .ok (t, rest)) : ∃ T, rest = T ++ Q ∧ x = .ok (t, T) := by
  cases x with
  | error e => cases h
  | ok p =>
    obtain ⟨rfl, rfl⟩ := Prod.mk.inj (Except.ok.inj h)
    exact ⟨p.2, rfl, rfl⟩

/-- A run of characters ends at a line break. -/
theorem span_append {p : Char → Bool} (hp : p '\n' = false) (h : Broken P Q) :
    (P ++ Q).takeWhile p = P.takeWhile p ∧ (P ++ Q).dropWhile p = P.dropWhile p ++ Q := by
  induction P with
  | nil =>
    obtain ⟨R, rfl⟩ := broken_nil h
    simp [hp]
  | cons c P ih =>
    by_cases hc : p c = true
    · obtain ⟨htake, hdrop⟩ := ih (h.tail (by rintro rfl; simp [hp] at hc))
      simp [hc, htake, hdrop]
    · simp [hc]

theorem scanHash_append (h : P ≠ []) : scanHash (P ++ Q) = followed Q (scanHash P) := by
  obtain ⟨c, P, rfl⟩ := List.exists_cons_of_ne_nil h
  simp only [List.cons_append, scanHash]
  split
  · rfl
  · split
    · rfl
    · split <;> rfl

theorem scanKeyword_append (h : Broken P Q) : scanKeyword (P ++ Q) = followed Q (scanKeyword P) := by
  obtain ⟨htake, hdrop⟩ := span_append (not_part (c := '\n') (by decide)).1 h
  unfold scanKeyword
  rw [htake, hdrop]
  dsimp only
  split <;> rfl

theorem scanSymbol_append (h : Broken P Q) : Except.ok (scanSymbol (P ++ Q)) = followed Q (.ok (scanSymbol P)) := by
  obtain ⟨htake, hdrop⟩ := span_append (not_part (c := '\n') (by decide)).1 h
  unfold scanSymbol
  rw [htake, hdrop]
  rfl

theorem spanNumeral_append (h : Broken P Q) (seen : Bool) :
    spanNumeral seen (P ++ Q) = { spanNumeral seen P with rest := (spanNumeral seen P).rest ++ Q } := by
  fun_induction spanNumeral seen P with
  | case1 seen =>
    obtain ⟨R, rfl⟩ := broken_nil h
    conv => lhs; unfold spanNumeral
    simp [(not_part (c := '\n') (by decide)).1]
  | case2 seen c cs hd ih =>
    rw [List.cons_append, spanNumeral_digit hd, ih (h.tail (by rintro rfl; exact absurd hd (by decide)))]
    rfl
  | case3 seen c cs hd hp ih =>
    rw [List.cons_append]
    conv => lhs; unfold spanNumeral
    rw [if_neg hd, if_pos hp, ih (h.tail (by rintro rfl; simp at hp))]
    rfl
  | case4 seen c hd hp he cs ih | case5 seen c hd hp he cs ih =>
    rw [List.cons_append, List.cons_append]
    conv => lhs; unfold spanNumeral
    rw [if_neg hd, if_neg hp, if_pos he]
    have hcs : Broken cs Q := (h.tail (by rintro rfl; simp at he)).tail (by decide)
    simp only [ih hcs]
    rfl
  | case6 seen c hd hp he cs hplus hminus ih =>
    have hcs : Broken cs Q := h.tail (by rintro rfl; simp at he)
    rw [List.cons_append]
    conv => lhs; unfold spanNumeral
    rw [if_neg hd, if_neg hp, if_pos he]
    split
    · rename_i heq
      obtain ⟨ds, rfl⟩ := hcs.of_append_cons heq (by decide)
      exact absurd rfl (hplus ds)
    · rename_i heq
      obtain ⟨ds, rfl⟩ := hcs.of_append_cons heq (by decide)
      exact absurd rfl (hminus ds)
    · rw [ih hcs]
      rfl
  | case7 seen c cs hd hp he hpart =>
    rw [List.cons_append]
    conv => lhs; unfold spanNumeral
    rw [if_neg hd, if_neg hp, if_neg he, if_pos hpart]
  | case8 seen c cs hd hp he hpart =>
    rw [List.cons_append]
    conv => lhs; unfold spanNumeral
    rw [if_neg hd, if_neg hp, if_neg he, if_neg hpart]

theorem scanNumber_append (h : Broken P Q) (negative : Bool) :
    scanNumber negative (P ++ Q) = followed Q (scanNumber negative P) := by
  unfold scanNumber
  rw [spanNumeral_append h]
  generalize spanNumeral false P = n
  dsimp only
  generalize (if negative then '-' :: n.text else n.text) = text
  split
  · rfl
  · split
    · split <;> rfl
    · split <;> rfl

theorem startsWithDigit_append (h : Broken P Q) : startsWithDigit (P ++ Q) = startsWithDigit P := by
  cases P with
  | nil =>
    obtain ⟨R, rfl⟩ := broken_nil h
    rfl
  | cons c P => rfl

/-- A string is closed in front of the cut, or is misspelt there, or is open. -/
theorem scanString_append (acc P Q : List Char) :
    (∃ t T, scanString acc P = .ok (t, T) ∧ scanString acc (P ++ Q) = .ok (t, T ++ Q)) ∨
      scanString acc P = .error { cause := .openString } ∨
      (∃ e, scanString acc P = .error e) ∧ ∃ e, scanString acc (P ++ Q) = .error e := by
  fun_induction scanString acc P with
  | case1 | case3 => exact .inr (.inl rfl)
  | case2 acc rest => exact .inl ⟨_, _, rfl, by rw [List.cons_append, scanString]⟩
  | case4 acc rest ih | case5 acc rest ih | case6 acc rest ih | case7 acc rest ih | case8 acc rest ih => exact ih
  | case9 acc rest c h1 h2 h3 h4 h5 =>
    refine .inr (.inr ⟨⟨_, rfl⟩, ?_⟩)
    rw [List.cons_append, List.cons_append, scanString]
    · exact ⟨_, rfl⟩
    all_goals assumption
  | case10 acc c rest hq hend hescape ih =>
    have hslash : c ≠ '\\' := fun hc => by
      cases rest with
      | nil => exact hend hc rfl
      | cons d rest => exact hescape d rest hc rfl
    rw [List.cons_append, scanString]
    · exact ih
    · exact hq
    · exact fun hc _ => hslash hc
    · exact fun _ _ hc _ => hslash hc

theorem scanChar_cons_append (h : Broken P Q) (c : Char) :
    scanChar (c :: (P ++ Q)) = followed Q (scanChar (c :: P)) := by
  obtain ⟨htake, hdrop⟩ := span_append (not_part (c := '\n') (by decide)).2 h
  simp only [scanChar, htake, hdrop]
  split <;> rfl

/-- No name of a character starts with a line break. -/
theorem namedChar?_break {w : List Char} {d : Char} (h : namedChar? ('\n' :: w) = some d) : w = [] ∧ d = '\n' := by
  unfold namedChar? at h
  have hne (s : String) (hs : s.toList.head? ≠ some '\n') : String.ofList ('\n' :: w) ≠ s := by
    rintro rfl
    simp at hs
  split at h
  · exact absurd ‹_› (hne "newline" (by decide))
  · exact absurd ‹_› (hne "space" (by decide))
  · exact absurd ‹_› (hne "tab" (by decide))
  · exact absurd ‹_› (hne "return" (by decide))
  · split at h
    · rename_i heq
      obtain ⟨rfl, rfl⟩ := List.cons.inj heq
      exact ⟨rfl, (Option.some.inj h).symm⟩
    · cases h

/-- A character literal may take the line break, but nothing behind it. -/
theorem scanChar_of_append (hP : P.getLast? = some '\n') (h : scanChar (P ++ Q) = .ok (t, rest)) :
    ∃ T, rest = T ++ Q ∧ scanChar P = .ok (t, T) := by
  cases P with
  | nil => cases hP
  | cons c P =>
    by_cases hnil : P = []
    · subst hnil
      obtain rfl : c = '\n' := by simpa using hP
      simp only [List.singleton_append, scanChar] at h
      cases hname : namedChar? ('\n' :: Q.takeWhile isWordPart) with
      | none =>
        rw [hname] at h
        cases h
      | some d =>
        rw [hname] at h
        obtain ⟨rfl, rfl⟩ := Prod.mk.inj (Except.ok.inj h)
        obtain ⟨htake, rfl⟩ := namedChar?_break hname
        have := List.takeWhile_append_dropWhile (p := isWordPart) (l := Q)
        rw [htake] at this
        exact ⟨[], this, rfl⟩
    · have hb : Broken P Q := .inl (by rwa [List.getLast?_cons_of_ne_nil hnil] at hP)
      rw [List.cons_append, scanChar_cons_append hb] at h
      exact of_followed h

theorem scanChar_append (hQ : Q.head? = some '\n') (h : scanChar P = .ok (t, T)) :
    scanChar (P ++ Q) = .ok (t, T ++ Q) := by
  cases P with
  | nil => cases h
  | cons c P =>
    rw [List.cons_append, scanChar_cons_append (.inr hQ), h]
    rfl

/-- The starts whose scanners do not care what stands behind a line break. -/
theorem Start.scan_append {start : Start} (h : Broken P Q) (hhash : start = .hash → P ≠ []) (hstring : start ≠ .string)
    (hchar : start ≠ .char) : start.scan c (P ++ Q) = followed Q (start.scan c P) := by
  cases start with
  | mark t => rfl
  | hash => exact scanHash_append (hhash rfl)
  | string => exact absurd rfl hstring
  | char => exact absurd rfl hchar
  | keyword => exact scanKeyword_append h
  | sign =>
    dsimp only [Start.scan]
    rw [startsWithDigit_append h, ← List.cons_append]
    split
    · exact scanNumber_append h _
    · exact scanSymbol_append (h.cons c)
  | digit => exact scanNumber_append (h.cons c) false
  | name => exact scanSymbol_append (h.cons c)
  | none => rfl

/-- **A token of a text whose line ends within the text** is a token of the lines up to there, unless a string is
open. -/
theorem scan_of_append (hP : P.getLast? = some '\n') (hhead : P.head? ≠ some '\n')
    (h : scan (P ++ Q) = .ok (t, rest)) :
    (∃ T, rest = T ++ Q ∧ scan P = .ok (t, T)) ∨ ∃ e, scan P = .error e ∧ e.cause = .openString := by
  cases P with
  | nil => cases hP
  | cons c P =>
    have hlast : P.getLast? = some '\n' := by
      rcases Broken.tail (Q := []) (.inl hP) (by simpa using hhead) with h | h
      · exact h
      · cases h
    have hne : P ≠ [] := by
      rintro rfl
      cases hlast
    rw [List.cons_append, scan_cons] at h
    rw [scan_cons]
    by_cases hstring : startOf c = .string
    · rw [hstring] at h ⊢
      dsimp only [Start.scan] at h ⊢
      rcases scanString_append [] P Q with ⟨u, T, hu, happ⟩ | hopen | ⟨-, e, he⟩
      · rw [happ] at h
        obtain ⟨rfl, rfl⟩ := Prod.mk.inj (Except.ok.inj h)
        exact .inl ⟨T, rfl, hu⟩
      · exact .inr ⟨_, hopen, rfl⟩
      · rw [he] at h
        cases h
    · by_cases hchar : startOf c = .char
      · rw [hchar] at h ⊢
        exact .inl (scanChar_of_append hlast h)
      · rw [Start.scan_append (.inl hlast) (fun _ => hne) hstring hchar] at h
        exact .inl (of_followed h)

/-- A token is the same in front of a line break. -/
theorem scan_append (hQ : Q.head? = some '\n') (hP : P ≠ []) (h : scan P = .ok (t, T)) :
    scan (P ++ Q) = .ok (t, T ++ Q) := by
  obtain ⟨c, P, rfl⟩ := List.exists_cons_of_ne_nil hP
  rw [scan_cons] at h
  rw [List.cons_append, scan_cons]
  by_cases hstring : startOf c = .string
  · rw [hstring] at h ⊢
    dsimp only [Start.scan] at h ⊢
    rcases scanString_append [] P Q with ⟨u, S, hu, happ⟩ | hopen | ⟨⟨e, he⟩, -⟩
    · rw [hu] at h
      obtain ⟨rfl, rfl⟩ := Prod.mk.inj (Except.ok.inj h)
      exact happ
    · rw [hopen] at h
      cases h
    · rw [he] at h
      cases h
  · by_cases hchar : startOf c = .char
    · rw [hchar] at h ⊢
      exact scanChar_append hQ h
    · rw [Start.scan_append (.inr hQ) ?_ hstring hchar, h]
      · rfl
      · rintro hhash rfl
        rw [hhash] at h
        cases h

/-! ## Whole texts -/

theorem head?_skipBlanks (cs : List Char) : (skipBlanks cs).head? ≠ some '\n' := by
  cases h : skipBlanks cs with
  | nil => simp
  | cons c ds =>
    have hc := (skipBlanks_cons h).1
    simp only [List.head?_cons, ne_eq, Option.some.injEq]
    rintro rfl
    exact absurd hc (by decide)

/-- **A text that is cut behind a line break** has the tokens of its parts, unless a string is open there. -/
theorem Lexes.split (h : Lexes (P ++ Q) ts none) (hP : Ended P) :
    (∃ us vs, ts = us ++ vs ∧ Lexes P us none ∧ Lexes Q vs none) ∨ ∃ us, Lexes P us (some .openString) := by
  generalize hcs : P ++ Q = cs at h
  generalize ho : none = o at h
  induction h generalizing P with
  | @done cs hdone =>
    subst hcs
    rcases skipBlanks_append (Q := Q) (hP.imp_right .inl) with ⟨hskip, heq⟩ | ⟨hskip, heq⟩
    · exact .inl ⟨[], [], rfl, .done hskip, .done (heq ▸ hdone)⟩
    · rw [heq] at hdone
      exact absurd (List.append_eq_nil_iff.mp hdone).1 hskip
  | fault => cases ho
  | @token cs rest t ts o hscan ht tail ih =>
    subst hcs ho
    rcases skipBlanks_append (Q := Q) (hP.imp_right .inl) with ⟨hskip, heq⟩ | ⟨hskip, heq⟩
    · exact .inl ⟨[], t :: ts, rfl, .done hskip, .token (heq ▸ hscan) ht tail⟩
    · rw [heq] at hscan
      have hended := hP.suffix (skipBlanks_suffix P)
      rcases scan_of_append (hended.resolve_left hskip) (head?_skipBlanks P) hscan with ⟨T, rfl, hT⟩ | ⟨e, he, hcause⟩
      · rcases ih (hended.suffix (scan_suffix hT)) rfl rfl with ⟨us, vs, rfl, hus, hvs⟩ | ⟨us, hus⟩
        · exact .inl ⟨t :: us, vs, rfl, .token hT ht hus, hvs⟩
        · exact .inr ⟨t :: us, .token hT ht hus⟩
      · exact .inr ⟨[], hcause ▸ .fault he⟩

/-- A text in front of a line break is cut in the same way by itself. -/
theorem Lexes.append_break (h : Lexes P ts none) (hQ : Q.head? = some '\n') (hQs : Lexes Q us o) :
    Lexes (P ++ Q) (ts ++ us) o := by
  generalize ho : none = o' at h
  induction h with
  | @done cs hdone =>
    rcases skipBlanks_append (.inr (.inr hQ) : cs = [] ∨ Broken cs Q) with ⟨-, heq⟩ | ⟨hskip, -⟩
    · exact hQs.skip heq
    · exact absurd hdone hskip
  | fault => cases ho
  | @token cs rest t ts o' hscan ht tail ih =>
    have hne : skipBlanks cs ≠ [] := by
      intro hnil
      rw [hnil] at hscan
      obtain ⟨rfl, -⟩ := Prod.mk.inj (Except.ok.inj hscan)
      exact absurd rfl ht
    rcases skipBlanks_append (.inr (.inr hQ) : cs = [] ∨ Broken cs Q) with ⟨hskip, -⟩ | ⟨-, heq⟩
    · exact absurd hskip hne
    · exact .token (by rw [heq]; exact scan_append hQ hne hscan) ht (ih ho)

end LispMachine.Token
