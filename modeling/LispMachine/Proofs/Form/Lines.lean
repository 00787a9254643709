import LispMachine.Proofs.Form.Readable
import LispMachine.Proofs.Form.Bare
import LispMachine.Proofs.Token.Located
/-!
# Lines of forms

`mapLines` gives a form other lines, at every depth and in all metadata, and changes nothing else.  The reader takes
the lines of forms from its tokens, except for those that are written in metadata.  Written lines are 32-bit words.
So if the tokens are given other lines and no line below `beyond` is changed, the reader gives the same forms with
these other lines, or the same fault (`readEach_mapLines`).
-/
namespace LispMachine

namespace Form

/-! ## Changing lines -/

mutual

/-- The form with other lines, at every depth and in all metadata. -/
def mapLines (σ : Nat → Nat) : Form → Form
  | .symbol s info => .symbol s (mapInfo σ info)
  | .list xs info => .list (mapAll σ xs) (mapInfo σ info)
  | .vector xs info => .vector (mapAll σ xs) (mapInfo σ info)
  | .set xs info => .set (mapAll σ xs) (mapInfo σ info)
  | .map ps info => .map (mapPairs σ ps) (mapInfo σ info)
  | f => f

def mapInfo (σ : Nat → Nat) : Option Info → Option Info
  | none => none
  | some m => some (mapMeta σ m)

def mapMeta (σ : Nat → Nat) : Info → Info
  | ⟨line, column, entries⟩ => ⟨line.map σ, column, mapPairs σ entries⟩

def mapAll (σ : Nat → Nat) : List Form → List Form
  | [] => []
  | x :: xs => mapLines σ x :: mapAll σ xs

def mapPairs (σ : Nat → Nat) : List (Form × Form) → List (Form × Form)
  | [] => []
  | (k, v) :: ps => (mapLines σ k, mapLines σ v) :: mapPairs σ ps

end

variable {σ : Nat → Nat} {ts : List Located} {n : Nat}

theorem mapAll_eq (σ : Nat → Nat) : ∀ xs : List Form, mapAll σ xs = xs.map (mapLines σ)
  | [] => rfl
  | x :: xs => congrArg (mapLines σ x :: ·) (mapAll_eq σ xs)

theorem mapPairs_eq (σ : Nat → Nat) :
    ∀ ps : List (Form × Form), mapPairs σ ps = ps.map (Prod.map (mapLines σ) (mapLines σ))
  | [] => rfl
  | (k, v) :: ps => congrArg ((mapLines σ k, mapLines σ v) :: ·) (mapPairs_eq σ ps)

theorem mapInfo_getD (σ : Nat → Nat) (info : Option Info) : (mapInfo σ info).getD {} = mapMeta σ (info.getD {}) := by
  cases info <;> rfl

@[simp] theorem mapLines_symbol (s : Symbol) (info : Option Info) :
    (symbol s info).mapLines σ = .symbol s (mapInfo σ info) := rfl

@[simp] theorem mapLines_list (xs : List Form) (info : Option Info) :
    (list xs info).mapLines σ = .list (xs.map (mapLines σ)) (mapInfo σ info) :=
  congrArg (list · _) (mapAll_eq σ xs)

@[simp] theorem mapLines_vector (xs : List Form) (info : Option Info) :
    (vector xs info).mapLines σ = .vector (xs.map (mapLines σ)) (mapInfo σ info) :=
  congrArg (vector · _) (mapAll_eq σ xs)

@[simp] theorem mapLines_set (xs : List Form) (info : Option Info) :
    (set xs info).mapLines σ = .set (xs.map (mapLines σ)) (mapInfo σ info) :=
  congrArg (set · _) (mapAll_eq σ xs)

@[simp] theorem mapLines_map (ps : List (Form × Form)) (info : Option Info) :
    (map ps info).mapLines σ = .map (ps.map (Prod.map (mapLines σ) (mapLines σ))) (mapInfo σ info) :=
  congrArg (map · _) (mapPairs_eq σ ps)

/-- Nothing but metadata is changed. -/
@[simp] theorem bare_mapLines (f : Form) : (f.mapLines σ).bare = f.bare := by
  induction f using induct with
  | atom f hf => cases f <;> first | rfl | exact absurd hf (by simp [isCollection])
  | list xs info ih | vector xs info ih | set xs info ih =>
    have : xs.map (bare ∘ mapLines σ) = xs.map bare := List.map_congr_left ih
    simp [this]
  | map ps info ih =>
    have : ps.map (Prod.map bare bare ∘ Prod.map (mapLines σ) (mapLines σ)) = ps.map (Prod.map bare bare) :=
      List.map_congr_left fun e he => Prod.ext (ih e he).1 (ih e he).2
    simp [this]

theorem beq_mapLines (f g : Form) : (f.mapLines σ == g.mapLines σ) = (f == g) := by
  show beq _ _ = beq f g
  rw [← beq_bare, bare_mapLines, bare_mapLines, beq_bare]

theorem mapLines_withInfo (f : Form) (info : Option Info) :
    (f.withInfo info).mapLines σ = (f.mapLines σ).withInfo (mapInfo σ info) := by
  cases f <;> rfl

theorem mapLines_placed (f : Form) (p : Pos) : (placed f p).mapLines σ = placed (f.mapLines σ) (p.mapLine σ) :=
  mapLines_withInfo f _

theorem info?_mapLines (f : Form) : (f.mapLines σ).info? = mapInfo σ f.info? := by
  cases f <;> rfl

theorem isSymbol_mapLines (f : Form) : (f.mapLines σ).isSymbol = f.isSymbol := by
  cases f <;> rfl

theorem isCollection_mapLines (f : Form) : (f.mapLines σ).isCollection = f.isCollection := by
  cases f <;> rfl

end Form

/-! ## Metadata -/

namespace Meta

open Form (mapLines mapMeta mapPairs mapPairs_eq)

variable {σ : Nat → Nat}

theorem insertEntry_mapLines (k v : Form) : ∀ es : List (Form × Form),
    insertEntry (k.mapLines σ) (v.mapLines σ) (mapPairs σ es) = mapPairs σ (insertEntry k v es)
  | [] => rfl
  | (k', v') :: es => by
    rw [mapPairs, insertEntry, insertEntry, Form.beq_mapLines]
    split
    · rfl
    · rw [insertEntry_mapLines k v es, mapPairs]

theorem insert_mapLines (m : Meta Form) (k v : Form) :
    (mapMeta σ m).insert (k.mapLines σ) (v.mapLines σ) = mapMeta σ (m.insert k v) := by
  obtain ⟨line, column, entries⟩ := m
  exact congrArg (Meta.mk (line.map σ) column) (insertEntry_mapLines k v entries)

theorem foldl_insert_mapLines (es : List (Form × Form)) : ∀ m : Meta Form,
    (mapPairs σ es).foldl (fun m e => m.insert e.1 e.2) (mapMeta σ m) =
      mapMeta σ (es.foldl (fun m e => m.insert e.1 e.2) m) := by
  induction es with
  | nil => exact fun _ => rfl
  | cons e es ih =>
    intro m
    rw [mapPairs, List.foldl_cons, List.foldl_cons, insert_mapLines, ih]

theorem merge_mapLines (m other : Meta Form) : (mapMeta σ m).merge (mapMeta σ other) = mapMeta σ (m.merge other) := by
  obtain ⟨line, column, entries⟩ := other
  have hentries := foldl_insert_mapLines (σ := σ) entries m
  simp only [merge, mapMeta, hentries]
  generalize entries.foldl (fun m e => m.insert e.1 e.2) m = sum
  obtain ⟨line', column', entries'⟩ := sum
  cases line <;> rfl

/-- A line below this bound may be written in metadata; the lines of tokens beyond it cannot. -/
def beyond : Nat := UInt32.size

theorem placeOf_lt (n : Int64) : placeOf n < beyond := n.toUInt64.toUInt32.toNat_lt

end Meta

/-- Lines that can be written are kept. -/
def KeepsWritten (σ : Nat → Nat) : Prop := ∀ n < Meta.beyond, σ n = n

theorem Pos.mapLine_start {σ : Nat → Nat} (hσ : KeepsWritten σ) : start.mapLine σ = start := by
  have : σ 1 = 1 := hσ 1 (by decide)
  rw [start, mapLine, this]

namespace Form

variable {σ : Nat → Nat} {ts : List Located} {n : Nat}

theorem ofPairs_mapLines (hσ : KeepsWritten σ) (ps : List (Form × Form)) :
    Meta.ofPairs (ps.map (Prod.map (mapLines σ) (mapLines σ))) = mapMeta σ (Meta.ofPairs ps) := by
  rw [Meta.ofPairs, List.foldl_map]
  show List.foldl _ (mapMeta σ {}) ps = _
  refine List.foldl_hom (mapMeta σ) fun m e => ?_
  obtain ⟨k, v⟩ := e
  have hinsert := Meta.insert_mapLines (σ := σ) m k v
  cases k <;> try exact hinsert
  cases v <;> try exact hinsert
  rename_i kw n
  have hplace : σ (Meta.placeOf n) = Meta.placeOf n := hσ _ (Meta.placeOf_lt n)
  obtain ⟨line, column, entries⟩ := m
  simp only [Prod.map, mapLines]
  split
  · simp only [mapMeta, Option.map_some, hplace]
  · split
    · rfl
    · exact hinsert

theorem metadataOf?_mapLines (hσ : KeepsWritten σ) (f : Form) :
    metadataOf? (f.mapLines σ) = mapInfo σ (metadataOf? f) := by
  cases f with
  | map ps info =>
    rw [mapLines_map]
    exact congrArg some (ofPairs_mapLines hσ ps)
  | nil | bool | long | double | char | str | keyword | symbol | list | vector | set => rfl

end Form

/-! ## Faults -/

/-- A cause that shows a form shows it with its lines. -/
def ReadError.mapLines (σ : Nat → Nat) : ReadError → ReadError
  | .duplicate key => .duplicate (key.mapLines σ)
  | e => e

def Fault.mapLines (σ : Nat → Nat) (fault : Fault ReadError) : Fault ReadError :=
  ⟨fault.cause.mapLines σ, fault.pos.mapLine σ⟩

namespace Form

variable {σ : Nat → Nat} {ts : List Located} {n : Nat} {α β γ δ : Type}

/-- What the reader gives for tokens with other lines. -/
def relabelled (σ : Nat → Nat) (g : α → β) :
    Except (Fault ReadError) (α × List Located) → Except (Fault ReadError) (β × List Located)
  | .ok (a, rest) => .ok (g a, rest.map (Located.mapLine σ))
  | .error fault => .error (fault.mapLines σ)

theorem relabelled_bind {g : α → β} {h : γ → δ} (x : Except (Fault ReadError) (α × List Located))
    {f : α × List Located → Except (Fault ReadError) (γ × List Located)}
    {f' : β × List Located → Except (Fault ReadError) (δ × List Located)}
    (hf : ∀ a rest, f' (g a, rest.map (Located.mapLine σ)) = relabelled σ h (f (a, rest))) :
    relabelled σ g x >>= f' = relabelled σ h (x >>= f) := by
  cases x with
  | error fault => rfl
  | ok p => exact hf p.1 p.2

/-! ## Collections -/

/-- A form or a fault with other lines. -/
def remade (σ : Nat → Nat) : Except (Fault ReadError) Form → Except (Fault ReadError) Form
  | .ok f => .ok (f.mapLines σ)
  | .error fault => .error (fault.mapLines σ)

theorem any_beq_mapLines (xs : List Form) (y : Form) :
    (xs.map (mapLines σ)).any (· == y.mapLines σ) = xs.any (· == y) := by
  rw [List.any_map]
  exact congrArg xs.any (funext fun x => beq_mapLines x y)

theorem repeated?_mapLines : ∀ before xs : List Form,
    repeated? (before.map (mapLines σ)) (xs.map (mapLines σ)) = (repeated? before xs).map (mapLines σ)
  | _, [] => rfl
  | before, x :: xs => by
    rw [List.map_cons, repeated?, repeated?, any_beq_mapLines]
    split
    · rfl
    · rw [show before.map (mapLines σ) ++ [x.mapLines σ] = (before ++ [x]).map (mapLines σ) by simp]
      exact repeated?_mapLines (before ++ [x]) xs

theorem pairUp_mapLines : ∀ xs : List Form,
    pairUp (xs.map (mapLines σ)) = (pairUp xs).map (Prod.map (mapLines σ) (mapLines σ))
  | [] => rfl
  | [x] => rfl
  | k :: v :: rest => by
    simp only [List.map_cons, pairUp, pairUp_mapLines rest]
    rfl

theorem ofSetItems_mapLines (xs : List Form) (p : Pos) :
    ofSetItems (xs.map (mapLines σ)) (p.mapLine σ) = remade σ (ofSetItems xs p) := by
  have hrepeated := repeated?_mapLines (σ := σ) [] xs
  rw [List.map_nil] at hrepeated
  rw [ofSetItems, ofSetItems, hrepeated]
  cases repeated? [] xs with
  | some x => rfl
  | none =>
    have hplaced := mapLines_placed (σ := σ) (.set xs none) p
    rw [mapLines_set] at hplaced
    exact congrArg Except.ok hplaced.symm

theorem ofMapItems_mapLines (xs : List Form) (p : Pos) :
    ofMapItems (xs.map (mapLines σ)) (p.mapLine σ) = remade σ (ofMapItems xs p) := by
  have hkeys : ((pairUp xs).map (Prod.map (mapLines σ) (mapLines σ))).map (·.1) =
      ((pairUp xs).map (·.1)).map (mapLines σ) := by
    simp [List.map_map, Function.comp_def]
  have hrepeated := repeated?_mapLines (σ := σ) [] ((pairUp xs).map (·.1))
  rw [List.map_nil] at hrepeated
  rw [ofMapItems, ofMapItems, List.length_map, pairUp_mapLines]
  split
  · rfl
  · dsimp only
    rw [hkeys, hrepeated]
    cases repeated? [] ((pairUp xs).map (·.1)) with
    | some k => rfl
    | none =>
      have hplaced := mapLines_placed (σ := σ) (.map (pairUp xs) none) p
      rw [mapLines_map] at hplaced
      exact congrArg Except.ok hplaced.symm

theorem finish_mapLines {token : Token} {k : Enclosure} (hk : opening? token = some k) (xs : List Form) (p : Pos) :
    k.finish (xs.map (mapLines σ)) (p.mapLine σ) = remade σ (k.finish xs p) := by
  cases token <;> simp only [opening?, Option.some.injEq, reduceCtorEq] at hk <;> subst hk
  case openParen =>
    have hplaced := mapLines_placed (σ := σ) (.list xs none) p
    rw [mapLines_list] at hplaced
    exact congrArg Except.ok hplaced.symm
  case openBracket =>
    have hplaced := mapLines_placed (σ := σ) (.vector xs none) p
    rw [mapLines_vector] at hplaced
    exact congrArg Except.ok hplaced.symm
  case openSet => exact ofSetItems_mapLines xs p
  case openBrace => exact ofMapItems_mapLines xs p

theorem annotate_mapLines (extra : Info) (f : Form) (p : Pos) :
    annotate (mapMeta σ extra) (f.mapLines σ) (p.mapLine σ) = remade σ (annotate extra f p) := by
  rw [annotate, annotate, isSymbol_mapLines, isCollection_mapLines]
  split
  · have hmerge := Meta.merge_mapLines (σ := σ) (f.info?.getD {}) extra
    rw [info?_mapLines, mapInfo_getD, hmerge]
    exact congrArg Except.ok (mapLines_withInfo f (some ((f.info?.getD {}).merge extra))).symm
  · rfl

theorem atom?_mapLine (t : Located) : atom? (t.mapLine σ) = (atom? t).map (mapLines σ) := by
  obtain ⟨token, p⟩ := t
  cases token <;> rfl

/-! ## The reader -/

/-- Up to a bound of the nesting, the reader gives the same for tokens with other lines. -/
structure Follows (σ : Nat → Nat) (n : Nat) : Prop where
  form : ∀ ts, read n (ts.map (Located.mapLine σ)) = relabelled σ (mapLines σ) (read n ts)
  operand : ∀ p ts, readOperand n (Pos.mapLine σ p) (ts.map (Located.mapLine σ)) =
    relabelled σ (mapLines σ) (readOperand n p ts)
  items : ∀ bracket what start ts, readItems n bracket what (Pos.mapLine σ start) (ts.map (Located.mapLine σ)) =
    relabelled σ (List.map (mapLines σ)) (readItems n bracket what start ts)

theorem posOf_mapLine (hσ : KeepsWritten σ) (ts : List Located) :
    posOf (ts.map (Located.mapLine σ)) = (posOf ts).mapLine σ := by
  cases ts with
  | nil => exact (Pos.mapLine_start hσ).symm
  | cons t ts => rfl

theorem tokenOf_mapLine (ts : List Located) : tokenOf (ts.map (Located.mapLine σ)) = tokenOf ts := by
  cases ts <;> rfl

theorem relabelled_finish (x : Except (Fault ReadError) Form) (rest : List Located) :
    (remade σ x >>= fun f => .ok (f, rest.map (Located.mapLine σ))) =
      relabelled σ (mapLines σ) (x >>= fun f => .ok (f, rest)) := by
  cases x <;> rfl

section Step

variable {t : Located}

theorem Follows.opening {k : Enclosure} (hn : Follows σ n) (hk : opening? t.token = some k) (ts : List Located) :
    read (n + 1) ((t :: ts).map (Located.mapLine σ)) = relabelled σ (mapLines σ) (read (n + 1) (t :: ts)) := by
  rw [List.map_cons, read_opening hk, read_opening (t := t.mapLine σ) hk]
  have hitems := hn.items k.bracket k.what t.pos ts
  rw [show (t.mapLine σ).pos = t.pos.mapLine σ from rfl, hitems]
  refine relabelled_bind _ fun xs rest => ?_
  dsimp only
  rw [finish_mapLines hk]
  exact relabelled_finish _ rest

theorem Follows.quoting {name : String} (hn : Follows σ n) (hq : quoting? t.token = some name) (ts : List Located) :
    read (n + 1) ((t :: ts).map (Located.mapLine σ)) = relabelled σ (mapLines σ) (read (n + 1) (t :: ts)) := by
  rw [List.map_cons, read_quoting hq, read_quoting (t := t.mapLine σ) hq]
  have hoperand := hn.operand t.pos ts
  rw [show (t.mapLine σ).pos = t.pos.mapLine σ from rfl, hoperand]
  refine relabelled_bind _ fun f rest => ?_
  have hplaced := mapLines_placed (σ := σ) (.list [sym name, f] none) t.pos
  rw [mapLines_list] at hplaced
  exact congrArg (fun g => Except.ok (g, rest.map (Located.mapLine σ))) hplaced.symm

theorem Follows.caret (hσ : KeepsWritten σ) (hn : Follows σ n) (ht : t.token = .caret) (ts : List Located) :
    read (n + 1) ((t :: ts).map (Located.mapLine σ)) = relabelled σ (mapLines σ) (read (n + 1) (t :: ts)) := by
  rw [List.map_cons, read_caret ht, read_caret (t := t.mapLine σ) ht]
  rw [show (t.mapLine σ).pos = t.pos.mapLine σ from rfl, hn.operand t.pos ts]
  refine relabelled_bind _ fun data rest => ?_
  dsimp only
  rw [metadataOf?_mapLines hσ]
  cases metadataOf? data with
  | none => rfl
  | some extra =>
    dsimp only [mapInfo]
    rw [hn.operand t.pos rest]
    refine relabelled_bind _ fun f rest => ?_
    dsimp only
    rw [annotate_mapLines]
    exact relabelled_finish _ rest

theorem Follows.discard (hn : Follows σ n) (ht : t.token = .discard) (ts : List Located) :
    read (n + 1) ((t :: ts).map (Located.mapLine σ)) = relabelled σ (mapLines σ) (read (n + 1) (t :: ts)) := by
  rw [List.map_cons, read_discard ht, read_discard (t := t.mapLine σ) ht, hn.form ts]
  exact relabelled_bind _ fun _ rest => hn.form rest

theorem read_end_mapLine (h : isEnd t.token) (ts : List Located) :
    read (n + 1) ((t :: ts).map (Located.mapLine σ)) = relabelled σ (mapLines σ) (read (n + 1) (t :: ts)) := by
  obtain ⟨token, p⟩ := t
  rcases h with rfl | ⟨b, hb⟩
  · rfl
  · cases b <;> cases token <;> simp only [Bracket.closes, Bool.false_eq_true] at hb <;> rfl

theorem Follows.read_succ (hσ : KeepsWritten σ) (hn : Follows σ n) (ts : List Located) :
    read (n + 1) (ts.map (Located.mapLine σ)) = relabelled σ (mapLines σ) (read (n + 1) ts) := by
  cases ts with
  | nil =>
    rw [List.map_nil, read_nil, relabelled, Fault.mapLines, Pos.mapLine_start hσ]
    rfl
  | cons t ts =>
    rcases start_cases t with ⟨f, hf⟩ | ⟨k, hk⟩ | ⟨name, hq⟩ | ht | ht | ht
    · have hf' : atom? (t.mapLine σ) = some (f.mapLines σ) := by rw [atom?_mapLine, hf]; rfl
      rw [List.map_cons, read_atom hf, read_atom hf']
      rfl
    · exact hn.opening hk ts
    · exact hn.quoting hq ts
    · exact hn.caret hσ ht ts
    · exact hn.discard ht ts
    · exact read_end_mapLine ht ts

theorem Follows.operand_succ (hn : Follows σ n) (p : Pos) (ts : List Located) :
    readOperand (n + 1) (p.mapLine σ) (ts.map (Located.mapLine σ)) =
      relabelled σ (mapLines σ) (readOperand (n + 1) p ts) := by
  rw [readOperand, readOperand, tokenOf_mapLine]
  split
  · rfl
  · exact hn.form ts

theorem Follows.items_succ (hn : Follows σ n) (bracket : Bracket) (what : String) (start : Pos) (ts : List Located) :
    readItems (n + 1) bracket what (start.mapLine σ) (ts.map (Located.mapLine σ)) =
      relabelled σ (List.map (mapLines σ)) (readItems (n + 1) bracket what start ts) := by
  by_cases he : tokenOf ts = .eof
  · rw [readItems_eof he, readItems_eof (by rw [tokenOf_mapLine, he])]
    rfl
  obtain ⟨t, ts, rfl⟩ : ∃ t us, ts = t :: us := by
    cases ts with
    | nil => exact absurd rfl he
    | cons t us => exact ⟨t, us, rfl⟩
  by_cases hc : bracket.closes t.token = true
  · rw [List.map_cons, readItems_close hc, readItems_close (t := t.mapLine σ) hc]
    rfl
  have hc : bracket.closes t.token = false := by simpa using hc
  by_cases hd : t.token = .discard
  · rw [List.map_cons, readItems_discard hd, readItems_discard (t := t.mapLine σ) hd, hn.form ts]
    exact relabelled_bind _ fun _ rest => hn.items bracket what start rest
  · have hfirst := hn.form (t :: ts)
    rw [List.map_cons] at hfirst
    rw [List.map_cons, readItems_item hc he hd, readItems_item (t := t.mapLine σ) hc he hd, hfirst]
    refine relabelled_bind _ fun f rest => ?_
    dsimp only
    rw [hn.items bracket what start rest]
    exact relabelled_bind _ fun fs rest => rfl

end Step

theorem follows (hσ : KeepsWritten σ) : ∀ n, Follows σ n
  | 0 => by
    constructor
    · intro ts
      rw [read, read, posOf_mapLine hσ]
      rfl
    · intro p ts
      rw [readOperand, readOperand]
      rfl
    · intro bracket what start ts
      rw [readItems, readItems]
      rfl
  | n + 1 => ⟨(follows hσ n).read_succ hσ, (follows hσ n).operand_succ, (follows hσ n).items_succ⟩

theorem nextWithin_mapLines (hσ : KeepsWritten σ) (n : Nat) (ts : List Located) :
    nextWithin n (ts.map (Located.mapLine σ)) = relabelled σ (Option.map (mapLines σ)) (nextWithin n ts) := by
  induction n generalizing ts with
  | zero => rfl
  | succ n ih =>
    by_cases he : tokenOf ts = .eof
    · rw [nextWithin, nextWithin, tokenOf_mapLine, he]
      rfl
    obtain ⟨t, ts, rfl⟩ : ∃ t us, ts = t :: us := by
      cases ts with
      | nil => exact absurd rfl he
      | cons t us => exact ⟨t, us, rfl⟩
    have hfuel : readFuel (t.mapLine σ :: ts.map (Located.mapLine σ)) = readFuel (t :: ts) := by simp [readFuel]
    have hform := (follows hσ (readFuel (t :: ts))).form
    by_cases hd : t.token = .discard
    · rw [List.map_cons, nextWithin_discard hd, nextWithin_discard (t := t.mapLine σ) hd, hfuel, hform ts]
      exact relabelled_bind _ fun _ rest => ih rest
    · have hfirst := hform (t :: ts)
      rw [List.map_cons] at hfirst
      rw [List.map_cons, nextWithin_form he hd, nextWithin_form (t := t.mapLine σ) he hd, hfuel, hfirst]
      exact relabelled_bind _ fun f rest => rfl

theorem readEachWithin_mapLines (hσ : KeepsWritten σ) (n : Nat) (ts : List Located) :
    readEachWithin n (ts.map (Located.mapLine σ)) =
      ((readEachWithin n ts).1.map (mapLines σ), (readEachWithin n ts).2.map (Fault.mapLines σ)) := by
  induction n generalizing ts with
  | zero => rfl
  | succ n ih =>
    have hnext := nextWithin_mapLines hσ (ts.length + 1) ts
    rw [readEachWithin, readEachWithin, next?, next?, List.length_map, hnext]
    cases nextWithin (ts.length + 1) ts with
    | error fault => rfl
    | ok p =>
      obtain ⟨o, rest⟩ := p
      cases o with
      | none => rfl
      | some f =>
        dsimp only [relabelled, Option.map_some]
        rw [ih rest]
        rfl

/-- **Tokens with other lines** are read as the same forms with these lines, or with the same fault, as long as no
line is changed that can be written in metadata. -/
theorem readEach_mapLines (hσ : KeepsWritten σ) (ts : List Located) : readEach (ts.map (Located.mapLine σ)) =
    ((readEach ts).1.map (mapLines σ), (readEach ts).2.map (Fault.mapLines σ)) := by
  have h := readEachWithin_mapLines hσ (ts.length + 1) ts
  rwa [readEach, List.length_map]

end Form

end LispMachine
