import WhileLang.Proofs.Engine.Equivalent
import WhileLang.Proofs.Layout.Token

/-!
# Reading laid out source

The second step of reading laid out source: `Parses` is a grammar for its tokens. Operators are read by
precedence and from the left, statements up to the bracket that closes their block, and a text has at most one
reading (`Parses.unique`).

The tokens of a tree read as this tree, straight and without positions (`Tree.parses_tokens`). An assigned
value is read up to the next semicolon, so this needs that no assigned value is a sequence. The proof is an
induction on the tree, and what it carries is how each tree reads in front of other tokens
(`Tree.ReadsBack`).
-/

namespace WhileLang

namespace Layout

/-- What is to be read: the statements of a block, one statement, the alternative of a condition, an
expression of operators that bind at least as tightly as a precedence, what follows an operand of such an
expression, or an operand. -/
inductive Goal
  | block
  | stmt
  | alternative
  | expr (p : Nat)
  | more (p : Nat) (left : Tree)
  | operand

/-- An expression of operators that bind as tightly as a precedence ends in front of these tokens. A name in
front of `:=` is no expression. -/
def stops (p : Nat) : List Token → Bool
  | .op op :: _ => op.precedence < p
  | .becomes :: _ => false
  | _ => true

/-- The readings of a list of tokens: the tree that is read and the tokens that are left. -/
inductive Parses : Goal → List Token → Tree → List Token → Prop
  | last {ts rest : List Token} {a : Tree} (ha : Parses .stmt ts a rest) (hend : rest.head? ≠ some .semi) :
    Parses .block ts a rest
  | cons {ts ts' rest : List Token} {a b : Tree} (ha : Parses .stmt ts a (.semi :: ts'))
    (hb : Parses .block ts' b rest) : Parses .block ts (.seq Span.none a b) rest
  | assign {x : String} {ts rest : List Token} {v : Tree} (hv : Parses .stmt ts v rest) :
    Parses .stmt (.name x :: .becomes :: ts) (.assign Span.none x v) rest
  | ite {ts ts' ts'' rest : List Token} {c t e : Tree} (hc : Parses .block ts c (.rparen :: .lbrace :: ts'))
    (ht : Parses .block ts' t (.rbrace :: ts'')) (he : Parses .alternative ts'' e rest) :
    Parses .stmt (.cond :: .lparen :: ts) (.ite Span.none c t e) rest
  | noElse {rest : List Token} (hend : rest.head? ≠ some .otherwise) :
    Parses .alternative rest (.nothing Span.none) rest
  | hasElse {ts rest : List Token} {e : Tree} (he : Parses .block ts e (.rbrace :: rest)) :
    Parses .alternative (.otherwise :: .lbrace :: ts) e rest
  | loop {ts ts' rest : List Token} {c b : Tree} (hc : Parses .block ts c (.rparen :: .lbrace :: ts'))
    (hb : Parses .block ts' b (.rbrace :: rest)) :
    Parses .stmt (.repeated :: .lparen :: ts) (.loop Span.none c b) rest
  | expr {ts rest : List Token} {t : Tree} (h : Parses (.expr 1) ts t rest) : Parses .stmt ts t rest
  | first {p : Nat} {ts ts' rest : List Token} {a t : Tree} (ha : Parses .operand ts a ts')
    (hmore : Parses (.more p a) ts' t rest) : Parses (.expr p) ts t rest
  | stop {p : Nat} {ts : List Token} {a : Tree} (hstop : stops p ts = true) : Parses (.more p a) ts a ts
  | next {p : Nat} {op : Op} {ts ts' rest : List Token} {a b t : Tree} (hp : p ≤ op.precedence)
    (hb : Parses (.expr (op.precedence + 1)) ts b ts')
    (hmore : Parses (.more p (.binary Span.none op a b)) ts' t rest) :
    Parses (.more p a) (.op op :: ts) t rest
  | value {v : Value} {rest : List Token} : Parses .operand (.value v :: rest) v.toTree rest
  | nothing {rest : List Token} : Parses .operand (.nothing :: rest) (.nothing Span.none) rest
  | name {x : String} {rest : List Token} : Parses .operand (.name x :: rest) (.var Span.none x) rest
  | parens {ts rest : List Token} {t : Tree} (h : Parses .block ts t (.rparen :: rest)) :
    Parses .operand (.lparen :: ts) t rest

/-! ## A text has one reading -/

/-- The tokens that only statements begin with. -/
def startsStatement : List Token → Bool
  | .cond :: _ | .repeated :: _ | .name _ :: .becomes :: _ => true
  | _ => false

theorem Parses.startsStatement_eq_false {p : Nat} {ts rest : List Token} {t : Tree}
    (h : Parses (.expr p) ts t rest) : startsStatement ts = false := by
  cases h with
  | first ha hmore =>
    cases ha with
    | value | nothing | parens => rfl
    | name =>
      cases hmore with
      | next => rfl
      | stop hstop =>
        unfold startsStatement
        split
        · cases ‹_ = _›
        · cases ‹_ = _›
        · injection ‹_ = _› with _ hts
          rw [hts] at hstop
          cases hstop
        · rfl

/-- A text has at most one reading. -/
theorem Parses.unique {g : Goal} {ts rest : List Token} {t : Tree} (h : Parses g ts t rest) :
    ∀ {t' : Tree} {rest' : List Token}, Parses g ts t' rest' → t = t' ∧ rest = rest' := by
  induction h with
  -- the first statement has one reading, and a semicolon behind it says whether there are more
  | last _ hend ih =>
    intro t' rest' h'
    cases h' with
    | last ha' => exact ih ha'
    | cons ha' =>
      obtain ⟨-, hrest⟩ := ih ha'
      rw [hrest] at hend
      exact absurd rfl hend
  | cons _ _ iha ihb =>
    intro t' rest' h'
    cases h' with
    | last ha' hend' =>
      obtain ⟨-, hrest⟩ := iha ha'
      rw [← hrest] at hend'
      exact absurd rfl hend'
    | cons ha' hb' =>
      obtain ⟨rfl, hrest⟩ := iha ha'
      cases hrest
      obtain ⟨rfl, rfl⟩ := ihb hb'
      exact ⟨rfl, rfl⟩
  | assign _ ih =>
    intro t' rest' h'
    cases h' with
    | assign hv' =>
      obtain ⟨rfl, rfl⟩ := ih hv'
      exact ⟨rfl, rfl⟩
    | expr h' => cases h'.startsStatement_eq_false
  | ite _ _ _ ihc iht ihe =>
    intro t' rest' h'
    cases h' with
    | ite hc' ht' he' =>
      obtain ⟨rfl, hrest⟩ := ihc hc'
      cases hrest
      obtain ⟨rfl, hrest⟩ := iht ht'
      cases hrest
      obtain ⟨rfl, rfl⟩ := ihe he'
      exact ⟨rfl, rfl⟩
    | expr h' => cases h'.startsStatement_eq_false
  | noElse hend =>
    intro t' rest' h'
    cases h' with
    | noElse => exact ⟨rfl, rfl⟩
    | hasElse => exact absurd rfl hend
  | hasElse _ ihe =>
    intro t' rest' h'
    cases h' with
    | noElse hend' => exact absurd rfl hend'
    | hasElse he' =>
      obtain ⟨rfl, hrest⟩ := ihe he'
      cases hrest
      exact ⟨rfl, rfl⟩
  | loop _ _ ihc ihb =>
    intro t' rest' h'
    cases h' with
    | loop hc' hb' =>
      obtain ⟨rfl, hrest⟩ := ihc hc'
      cases hrest
      obtain ⟨rfl, hrest⟩ := ihb hb'
      cases hrest
      exact ⟨rfl, rfl⟩
    | expr h' => cases h'.startsStatement_eq_false
  | expr h ih =>
    intro t' rest' h'
    have hstart := h.startsStatement_eq_false
    cases h' with
    | expr h' => exact ih h'
    | _ => cases hstart
  | first _ _ iha ihmore =>
    intro t' rest' h'
    cases h' with
    | first ha' hmore' =>
      obtain ⟨rfl, rfl⟩ := iha ha'
      exact ihmore hmore'
  -- an operator is read or left, by its precedence
  | stop hstop =>
    intro t' rest' h'
    cases h' with
    | stop => exact ⟨rfl, rfl⟩
    | next hp' =>
      have hlt := of_decide_eq_true hstop
      omega
  | next hp _ _ ihb ihmore =>
    intro t' rest' h'
    cases h' with
    | stop hstop' =>
      have hlt := of_decide_eq_true hstop'
      omega
    | next _ hb' hmore' =>
      obtain ⟨rfl, rfl⟩ := ihb hb'
      exact ihmore hmore'
  | value | nothing | name =>
    intro t' rest' h'
    cases h'
    exact ⟨rfl, rfl⟩
  | parens _ ih =>
    intro t' rest' h'
    cases h' with
    | parens h' =>
      obtain ⟨rfl, hrest⟩ := ih h'
      cases hrest
      exact ⟨rfl, rfl⟩

/-! ## Where statements and blocks end -/

/-- Tokens that a block ends in front of. -/
def closes : List Token → Bool
  | [] | .rparen :: _ | .rbrace :: _ => true
  | _ => false

/-- Tokens that a statement ends in front of. -/
def ends (ts : List Token) : Bool := closes ts || ts.head? == some .semi

section

variable {ts : List Token}

theorem ends_of_closes (h : closes ts = true) : ends ts = true := by
  rw [ends, h, Bool.true_or]

theorem head?_of_closes (h : closes ts = true) : ts.head? ≠ some .semi := by
  intro hsemi
  cases ts with
  | nil => cases hsemi
  | cons token ts =>
    cases hsemi
    cases h

theorem head?_of_ends (h : ends ts = true) : ts.head? ≠ some .otherwise := by
  intro hotherwise
  cases ts with
  | nil => cases hotherwise
  | cons token ts =>
    cases hotherwise
    cases h

theorem stops_mono {p p' : Nat} (hle : p ≤ p') (h : stops p ts = true) : stops p' ts = true := by
  unfold stops at h ⊢
  split at h
  · exact decide_eq_true (Nat.lt_of_lt_of_le (of_decide_eq_true h) hle)
  · cases h
  · rfl

theorem stops_of_ends (h : ends ts = true) (p : Nat) : stops p ts = true := by
  unfold stops
  split
  · cases h
  · cases h
  · rfl

end

end Layout

/-! ## The tokens of a tree read as the tree -/

namespace Tree

open Layout

/-- The statements of three trees in order. -/
theorem andThen_assoc (a b c : Tree) : (a.andThen b).andThen c = a.andThen (b.andThen c) := by
  induction a with
  | seq s a₁ a₂ _ ih =>
    show seq s a₁ ((a₂.andThen b).andThen c) = seq s a₁ (a₂.andThen (b.andThen c))
    rw [ih]
  | _ => rfl

theorem unplaced_andThen (a b : Tree) : (a.andThen b).unplaced = a.unplaced.andThen b.unplaced := by
  induction a with
  | seq s a₁ a₂ _ ih =>
    show seq Span.none a₁.unplaced (a₂.andThen b).unplaced =
      seq Span.none a₁.unplaced (a₂.unplaced.andThen b.unplaced)
    rw [ih]
  | _ => rfl

/-- Whether a tree is a sequence. -/
def isSeq : Tree → Bool
  | .seq _ _ _ => true
  | _ => false

/-- No assigned value is a sequence. -/
def assignsNoSeq (t : Tree) : Bool :=
  t.all fun
    | .assign _ _ v => !v.isSeq
    | _ => true

/-- The tree that the tokens of a tree read as. -/
def canonical (t : Tree) : Tree := t.straight.unplaced

theorem canonical_seq (s : Span) (a b : Tree) : (seq s a b).canonical = a.canonical.andThen b.canonical :=
  unplaced_andThen a.straight b.straight

theorem canonical_andThen {t : Tree} (h : t.isSeq = false) (u : Tree) :
    t.canonical.andThen u = .seq Span.none t.canonical u := by
  cases t with
  | seq => cases h
  | _ => rfl

/-- How tightly the outermost operator of a tree binds; operands bind tightest. -/
def precedence : Tree → Nat
  | .binary _ op _ _ => op.precedence
  | _ => 4

theorem precedence_pos (t : Tree) : 1 ≤ t.precedence := by
  cases t with
  | binary s op l r =>
    show 1 ≤ op.precedence
    cases op <;> decide
  | _ => exact (by decide : 1 ≤ 4)

/-- An operand without parentheses is an expression that binds tightly enough. -/
theorem precedence_of_needsParens {t : Tree} {op : Op} {onRight : Bool}
    (h : t.needsParens op onRight = false) :
    t.isStatement = false ∧ op.precedence + onRight.toNat ≤ t.precedence := by
  cases t with
  | binary s op' l r =>
    simp only [needsParens, Bool.or_eq_false_iff, decide_eq_false_iff_not] at h
    refine ⟨rfl, ?_⟩
    show op.precedence + onRight.toNat ≤ op'.precedence
    cases onRight with
    | false =>
      simp only [Bool.toNat_false]
      omega
    | true =>
      have hne : op'.precedence ≠ op.precedence := by simpa using h.2
      simp only [Bool.toNat_true]
      omega
  | assign | ite | seq | loop => cases h
  | _ =>
    refine ⟨rfl, ?_⟩
    show op.precedence + onRight.toNat ≤ 4
    have hop : op.precedence ≤ 3 := by cases op <;> decide
    have hright : onRight.toNat ≤ 1 := Bool.toNat_le onRight
    omega

/-- A tree reads as a statement in front of whatever ends one. -/
def ReadsAsStmt (t : Tree) : Prop :=
  ∀ rest, ends rest = true → Parses .stmt (t.tokens ++ rest) t.canonical rest

/-- A tree reads as the first operand of an expression, if no operator behind it binds tighter than its own. -/
def ReadsAsExpr (t : Tree) : Prop :=
  ∀ p rest u rest', p ≤ t.precedence → stops (t.precedence + 1) rest = true →
    Parses (.more p t.canonical) rest u rest' → Parses (.expr p) (t.tokens ++ rest) u rest'

/-- How a tree reads in front of other tokens: as a statement, as an expression, as the first statements of a
block, and as a whole block. -/
structure ReadsBack (t : Tree) : Prop where
  stmt : t.isSeq = false → t.ReadsAsStmt
  expr : t.isStatement = false → t.ReadsAsExpr
  before : ∀ {ts u rest}, Parses .block ts u rest →
    Parses .block (t.tokens ++ .semi :: ts) (t.canonical.andThen u) rest
  block : ∀ {rest}, closes rest = true → Parses .block (t.tokens ++ rest) t.canonical rest

namespace ReadsBack

section

variable {t l r c a b : Tree} {s : Span} {op : Op}

/-- What reads as a statement reads as a block and as the first statement of one. -/
theorem ofStmt (hseq : t.isSeq = false) (hstmt : t.ReadsAsStmt)
    (hexpr : t.isStatement = false → t.ReadsAsExpr) : ReadsBack t where
  stmt _ := hstmt
  expr := hexpr
  before hu := by
    rw [canonical_andThen hseq]
    exact .cons (hstmt _ rfl) hu
  block hrest := .last (hstmt _ (ends_of_closes hrest)) (head?_of_closes hrest)

/-- What reads as an expression reads as a statement. -/
theorem ofExpr (hstatement : t.isStatement = false) (h : t.ReadsAsExpr) : ReadsBack t := by
  have hseq : t.isSeq = false := by
    cases t with
    | seq => cases hstatement
    | _ => rfl
  refine ofStmt hseq ?_ (fun _ => h)
  intro rest hrest
  have hstop : ∀ p, stops p rest = true := stops_of_ends hrest
  exact .expr (h 1 rest _ rest t.precedence_pos (hstop _) (.stop (hstop 1)))

/-- A single token reads as an operand. -/
theorem ofToken (hstatement : t.isStatement = false)
    (h : ∀ {rest}, Parses .operand (t.tokens ++ rest) t.canonical rest) : ReadsBack t :=
  ofExpr hstatement fun _ _ _ _ _ _ hmore => .first h hmore

/-- An operand reads as such in front of whatever follows it, with or without its parentheses. -/
theorem operand {onRight : Bool} (ht : ReadsBack t) {p : Nat} {rest rest' : List Token} {u : Tree}
    (hp : p ≤ op.precedence + onRight.toNat) (hstop : stops (op.precedence + 1) rest = true)
    (hmore : Parses (.more p t.canonical) rest u rest') :
    Parses (.expr p) (wrapTokens (t.needsParens op onRight) t.tokens ++ rest) u rest' := by
  cases hparens : t.needsParens op onRight with
  | true =>
    have hblock : Parses .block (t.tokens ++ .rparen :: rest) t.canonical (.rparen :: rest) := ht.block rfl
    have htokens : wrapTokens true t.tokens ++ rest = .lparen :: (t.tokens ++ .rparen :: rest) := by
      simp only [wrapTokens, if_true, List.cons_append, List.append_assoc, List.nil_append]
    rw [htokens]
    exact .first (.parens hblock) hmore
  | false =>
    obtain ⟨hstatement, hle⟩ := precedence_of_needsParens hparens
    show Parses (.expr p) (t.tokens ++ rest) u rest'
    exact ht.expr hstatement p rest u rest' (by omega) (stops_mono (by omega) hstop) hmore

theorem binary (hl : ReadsBack l) (hr : ReadsBack r) : ReadsBack (.binary s op l r) := by
  refine ofExpr rfl ?_
  intro p rest u rest' hp hstop hmore
  have hright : Parses (.expr (op.precedence + 1)) (wrapTokens (r.needsParens op true) r.tokens ++ rest)
      r.canonical rest := hr.operand (Nat.le_refl _) hstop (.stop hstop)
  have hnext : stops (op.precedence + 1)
      (.op op :: (wrapTokens (r.needsParens op true) r.tokens ++ rest)) = true :=
    decide_eq_true (Nat.lt_succ_self op.precedence)
  -- the operator is read behind the left operand, and its right operand ends in front of the rest
  rw [tokens, List.append_assoc]
  exact hl.operand hp hnext (.next hp hright hmore)

theorem assign {x : String} (hseq : a.isSeq = false) (ha : ReadsBack a) : ReadsBack (.assign s x a) :=
  ofStmt rfl (fun rest hrest => .assign (ha.stmt hseq rest hrest)) fun h => nomatch h

/-- A block reads as its statements. -/
theorem body (ht : ReadsBack t) (rest : List Token) :
    blockTokens t.tokens ++ rest = .lbrace :: (t.tokens ++ .rbrace :: rest) ∧
      Parses .block (t.tokens ++ .rbrace :: rest) t.canonical (.rbrace :: rest) := by
  refine ⟨?_, ht.block rfl⟩
  simp only [blockTokens, List.cons_append, List.append_assoc, List.nil_append]

/-- An alternative that does nothing is left out, and reads as one that does nothing. -/
theorem alternative (ht : ReadsBack t) {rest : List Token} (hrest : rest.head? ≠ some .otherwise) :
    Parses .alternative (elseTokens t t.tokens ++ rest) t.canonical rest := by
  by_cases he : t.isElse = true
  · obtain ⟨hbraces, hbody⟩ := ht.body rest
    rw [elseTokens, if_pos he, List.cons_append, hbraces]
    exact .hasElse hbody
  · have hcanonical : t.canonical = .nothing Span.none := by
      cases t with
      | absent | nothing => rfl
      | _ => exact absurd rfl he
    rw [elseTokens, if_neg he, hcanonical]
    exact .noElse hrest

theorem ite (hc : ReadsBack c) (ha : ReadsBack a) (hb : ReadsBack b) : ReadsBack (.ite s c a b) := by
  refine ofStmt rfl ?_ fun h => nomatch h
  intro rest hrest
  have helse := hb.alternative (head?_of_ends hrest)
  obtain ⟨hbraces, hbody⟩ := ha.body (elseTokens b b.tokens ++ rest)
  simp only [tokens, List.cons_append, List.append_assoc, hbraces]
  exact .ite (hc.block rfl) hbody helse

theorem loop (hc : ReadsBack c) (hb : ReadsBack b) : ReadsBack (.loop s c b) := by
  refine ofStmt rfl ?_ fun h => nomatch h
  intro rest hrest
  obtain ⟨hbraces, hbody⟩ := hb.body rest
  simp only [tokens, List.cons_append, List.append_assoc, hbraces]
  exact .loop (hc.block rfl) hbody

/-- The statements of a sequence are read one after the other. -/
theorem seq (ha : ReadsBack a) (hb : ReadsBack b) : ReadsBack (.seq s a b) where
  stmt h := nomatch h
  expr h := nomatch h
  before hu := by
    rw [tokens, List.append_assoc, List.cons_append, canonical_seq, andThen_assoc]
    exact ha.before (hb.before hu)
  block hrest := by
    rw [tokens, List.append_assoc, List.cons_append, canonical_seq]
    exact ha.before (hb.block hrest)

end

end ReadsBack

/-- A tree reads back if it assigns no sequence. -/
theorem readsBack {t : Tree} (h : t.assignsNoSeq = true) : ReadsBack t := by
  induction t with
  | absent | nothing => exact .ofToken rfl .nothing
  | num s n => exact .ofToken rfl (.value (v := .num Span.none n))
  | bool s b => exact .ofToken rfl (.value (v := .bool Span.none b))
  | var => exact .ofToken rfl .name
  | binary s op l r ihl ihr =>
    simp only [assignsNoSeq, all, Bool.and_eq_true] at h
    exact (ihl h.1.2).binary (ihr h.2)
  | assign s x v ih =>
    simp only [assignsNoSeq, all, Bool.and_eq_true, Bool.not_eq_true'] at h
    exact (ih h.2).assign h.1
  | ite s c t e ihc iht ihe =>
    simp only [assignsNoSeq, all, Bool.and_eq_true] at h
    exact (ihc h.1.1.2).ite (iht h.1.2) (ihe h.2)
  | seq s a b iha ihb =>
    simp only [assignsNoSeq, all, Bool.and_eq_true] at h
    exact (iha h.1.2).seq (ihb h.2)
  | loop s c b ihc ihb =>
    simp only [assignsNoSeq, all, Bool.and_eq_true] at h
    exact (ihc h.1.2).loop (ihb h.2)

/-- The tokens of a tree that assigns no sequence read as the tree, straight and without positions. -/
theorem parses_tokens {t : Tree} (h : t.assignsNoSeq = true) : Parses .block t.tokens t.canonical [] := by
  have hblock : Parses .block (t.tokens ++ []) t.canonical [] := (readsBack h).block rfl
  rwa [List.append_nil] at hblock

/-- Trees with the same tokens differ in positions and in the nesting of their sequences only. -/
theorem canonical_eq_of_tokens {t t' : Tree} (h : t.assignsNoSeq = true) (h' : t'.assignsNoSeq = true)
    (htokens : t.tokens = t'.tokens) : t.canonical = t'.canonical := by
  have hread := parses_tokens h'
  rw [← htokens] at hread
  exact ((parses_tokens h).unique hread).1

end Tree

end WhileLang
