import WhileLang.Proofs.Layout.Parse

/-!
# Expressions read back

Laid out expressions are read by the grammar that their operators suggest: `*` binds tighter than `+`, and `+`
tighter than `<`, all three associate to the left, and parentheses group. `Derives` is this grammar, with one level
for each precedence. Where only expressions are read, any word that is no value may be a name, `if` and `while`
included (`isIdentifier_of_isOrdinary`).

An expression has one derivation at most, because derivations are readings (`Derives.parses`) and there is at most
one of these. That it has one is an induction on the expression (`Tree.derives_tokens`): parentheses stand exactly
where an operand binds less tightly than its place asks for.
-/

namespace WhileLang

namespace Layout

/-! ## The words of expressions -/

/-- Statements begin with these words, so in an expression they are names. -/
def Token.inExpression : Token → Token
  | .cond => .name "if"
  | .otherwise => .name "else"
  | .repeated => .name "while"
  | token => token

/-- The tokens of an expression. -/
def lexExpression (s : String) : List Token := (lexText s).map Token.inExpression

/-- Names that an expression may have: words that do not begin like a number and stand for nothing else. -/
def isIdentifier (x : String) : Bool :=
  x != "" && (x.toList.all fun c => !isSeparator c) && !isNumeric x &&
    !(["true", "false", "?", "do-nothing"].contains x)

/-- An ordinary name may stand in an expression, unless it is a truth value. -/
theorem isIdentifier_of_isOrdinary {x : String} (h : isOrdinary x = true) (hx : x ∉ ["true", "false"]) :
    isIdentifier x = true := by
  have hothers : ∀ k ∈ ["true", "false", "?", "do-nothing"], isOrdinary k = true → k ∈ ["true", "false"] := by
    decide
  have hword : ["true", "false", "?", "do-nothing"].contains x = false := by
    rw [List.contains_eq_mem, decide_eq_false_iff_not]
    exact fun hmem => hx (hothers x hmem h)
  rw [isIdentifier, word_of_isOrdinary h, hword]
  rfl

/-- A name of an expression stands for itself. -/
theorem lexExpression_identifier {x : String} (h : isIdentifier x = true) : lexExpression x = [.name x] := by
  simp only [isIdentifier, Bool.and_eq_true, bne_iff_ne, List.all_eq_true, Bool.not_eq_true',
    List.contains_eq_mem, decide_eq_false_iff_not, List.mem_cons, List.not_mem_nil, or_false, not_or] at h
  obtain ⟨⟨⟨hne, hchars⟩, hnumeric⟩, htrue, hfalse, hquestion, hnothing⟩ := h
  have htoken : (wordToken x).inExpression = .name x := by
    by_cases hkeyword : x = "if" ∨ x = "else" ∨ x = "while"
    · rcases hkeyword with rfl | rfl | rfl <;> rfl
    · simp only [not_or] at hkeyword
      have hlookup : keywords.lookup x = none := by
        rw [List.lookup_eq_none_iff]
        simp [keywords, htrue, hfalse, hquestion, hnothing, hkeyword]
      unfold wordToken
      rw [hlookup, hnumeric]
      rfl
  rw [lexExpression, lexText_word hne hchars, List.map_singleton, htoken]

/-! ## The grammar of expressions -/

/-- Expressions by level, with the trees that they stand for. Comparisons, sums and products have the levels one to
three, and the operands of level four are values, names and expressions between parentheses. An operator has an
expression of its own level on its left, and one of the next level on its right. -/
inductive Derives : Nat → List Token → Tree → Prop
  | value (v : Value) : Derives 4 [.value v] v.toTree
  | name (x : String) : Derives 4 [.name x] (.var Span.none x)
  | parens {ts : List Token} {t : Tree} (h : Derives 1 ts t) : Derives 4 (.lparen :: (ts ++ [.rparen])) t
  | binary {op : Op} {ts us : List Token} {a b : Tree} (ha : Derives op.precedence ts a)
    (hb : Derives (op.precedence + 1) us b) :
    Derives op.precedence (ts ++ .op op :: us) (.binary Span.none op a b)
  | tighter {p : Nat} {ts : List Token} {t : Tree} (h : Derives (p + 1) ts t) : Derives p ts t

section

variable {p : Nat} {ts : List Token} {t t' : Tree}

/-- What binds tightly is an expression wherever less is asked for. -/
theorem Derives.weaken (h : Derives p ts t) {q : Nat} (hle : q ≤ p) : Derives q ts t := by
  induction hle with
  | refl => exact h
  | step _ ih => exact ih h.tighter

/-- A derivation is a reading in front of all tokens that do not go on with a tighter operator. -/
theorem Derives.parses (h : Derives p ts t) : ∀ {q : Nat} {rest rest' : List Token} {u : Tree}, q ≤ p →
    stops (p + 1) rest = true → Parses (.more q t) rest u rest' → Parses (.expr q) (ts ++ rest) u rest' := by
  induction h with
  | value => exact fun _ _ hmore => .first .value hmore
  | name => exact fun _ _ hmore => .first .name hmore
  | @parens ts t _ ih =>
    intro q rest rest' u _ _ hmore
    have hinner : Parses (.expr 1) (ts ++ .rparen :: rest) t (.rparen :: rest) :=
      ih (Nat.le_refl 1) rfl (.stop rfl)
    have hblock : Parses .block (ts ++ .rparen :: rest) t (.rparen :: rest) :=
      .last (.expr hinner) (by simp)
    rw [List.cons_append, List.append_assoc]
    exact .first (.parens hblock) hmore
  | @binary op ts us a b _ _ iha ihb =>
    intro q rest rest' u hq hstop hmore
    have hright : Parses (.expr (op.precedence + 1)) (us ++ rest) b rest :=
      ihb (Nat.le_refl _) (stops_mono (Nat.le_succ _) hstop) (.stop hstop)
    have hnext : stops (op.precedence + 1) (.op op :: (us ++ rest)) = true :=
      decide_eq_true (Nat.lt_succ_self op.precedence)
    rw [List.append_assoc]
    exact iha hq hnext (.next hq hright hmore)
  | tighter _ ih => exact fun hq hstop hmore => ih (by omega) (stops_mono (Nat.le_succ _) hstop) hmore

/-- An expression has one derivation at most. -/
theorem Derives.unique (h : Derives p ts t) (h' : Derives p ts t') : t = t' := by
  have hread : ∀ {t : Tree}, Derives p ts t → Parses (.expr p) (ts ++ []) t [] :=
    fun h => h.parses (Nat.le_refl p) rfl (.stop rfl)
  exact ((hread h).unique (hread h')).1

end

end Layout

/-! ## Formulas -/

namespace Tree

open Layout

/-- Formulas are made of values, variables and operators, with nothing left out. -/
def isFormula (t : Tree) : Bool :=
  t.all fun
    | .num _ _ | .bool _ _ | .binary _ _ _ _ => true
    | .var _ x => isIdentifier x
    | _ => false

theorem lexExpression_wrap {parens : Bool} {s : String} {ts : List Token} (h : lexExpression s = ts) :
    lexExpression (wrap parens s) = wrapTokens parens ts := by
  rw [← h, lexExpression, lexText_wrap rfl, lexExpression]
  cases parens with
  | false => rfl
  | true => simp only [wrapTokens, if_true, List.map_cons, List.map_append, List.map_nil, Token.inExpression]

theorem lexExpression_infix (op : Op) (a b : String) :
    lexExpression (a ++ " " ++ op.symbol ++ " " ++ b) = lexExpression a ++ .op op :: lexExpression b := by
  rw [lexExpression, lexText_infix, List.map_append, List.map_cons]
  rfl

/-- The text of a formula is cut into its tokens. -/
theorem lexExpression_layout {e : Tree} (h : e.isFormula = true) (depth : Nat) :
    lexExpression (e.layout depth) = e.tokens := by
  induction e generalizing depth with
  | num s n =>
    rw [lexExpression, layout, ← Value.text, lexText_value (.num s n)]
    rfl
  | bool s b =>
    rw [lexExpression, layout, ← Value.text, lexText_value (.bool s b)]
    rfl
  | var s x =>
    have hname : isIdentifier x = true := h
    exact lexExpression_identifier hname
  | binary s op l r ihl ihr =>
    simp only [isFormula, all, Bool.and_eq_true] at h
    have hl : lexExpression (wrap (l.needsParens op false) (l.layout 0)) =
        wrapTokens (l.needsParens op false) l.tokens :=
      lexExpression_wrap (ihl h.1.2 0)
    have hr : lexExpression (wrap (r.needsParens op true) (r.layout 0)) =
        wrapTokens (r.needsParens op true) r.tokens :=
      lexExpression_wrap (ihr h.2 0)
    rw [layout, lexExpression_infix, hl, hr, tokens]
  | _ => simp [isFormula, all] at h

theorem lexExpression_pretty {e : Tree} (h : e.isFormula = true) : lexExpression e.pretty = e.tokens := by
  have hline : lexText "\n" = [] := by decide
  have hpretty : e.pretty = e.layout 0 ++ "\n" := by
    cases e with
    | absent => cases h
    | _ => rfl
  rw [hpretty, lexExpression, lexText_append_of_startsApart (by decide), hline, List.append_nil]
  exact lexExpression_layout h 0

/-- With or without its parentheses, an operand binds as tightly as its place asks for. -/
theorem derives_operand (op : Op) (onRight : Bool) {t u : Tree} (h : Derives t.precedence t.tokens u) :
    Derives (op.precedence + onRight.toNat) (wrapTokens (t.needsParens op onRight) t.tokens) u := by
  cases hparens : t.needsParens op onRight with
  | true =>
    have hop : op.precedence + onRight.toNat ≤ 4 := by
      cases op <;> cases onRight <;> decide
    have hinner : Derives 1 t.tokens u := h.weaken t.precedence_pos
    exact hinner.parens.weaken hop
  | false =>
    obtain ⟨-, hle⟩ := precedence_of_needsParens hparens
    exact h.weaken hle

/-- The tokens of a formula derive it at the level of its outermost operator. -/
theorem derives_tokens {e : Tree} (h : e.isFormula = true) : Derives e.precedence e.tokens e.unplaced := by
  induction e with
  | num s n => exact .value (.num Span.none n)
  | bool s b => exact .value (.bool Span.none b)
  | var s x => exact .name x
  | binary s op l r ihl ihr =>
    simp only [isFormula, all, Bool.and_eq_true] at h
    have hl : Derives op.precedence (wrapTokens (l.needsParens op false) l.tokens) l.unplaced :=
      derives_operand op false (ihl h.1.2)
    have hr : Derives (op.precedence + 1) (wrapTokens (r.needsParens op true) r.tokens) r.unplaced :=
      derives_operand op true (ihr h.2)
    exact .binary hl hr
  | _ => simp [isFormula, all] at h

end Tree

open Layout in
/-- A laid out formula is an expression of the grammar in which `*` binds tighter than `+`, `+` tighter than `<`, all
operators associate to the left and parentheses group. It stands for the formula, up to positions, and for nothing
else, so formulas that are laid out alike are the same. -/
theorem derives_pretty_iff (e : Tree) (h : e.isFormula = true) :
    (∀ t, Derives 1 (lexExpression e.pretty) t ↔ t = e.unplaced) ∧
      ∀ e' : Tree, e'.isFormula = true → e'.pretty = e.pretty → e'.unplaced = e.unplaced := by
  have hreads : ∀ {e : Tree}, e.isFormula = true → Derives 1 (lexExpression e.pretty) e.unplaced := by
    intro e h
    rw [Tree.lexExpression_pretty h]
    exact (Tree.derives_tokens h).weaken e.precedence_pos
  refine ⟨fun t => ⟨fun ht => ht.unique (hreads h), ?_⟩, fun e' h' hpretty => ?_⟩
  · rintro rfl
    exact hreads h
  · have hread := hreads h'
    rw [hpretty] at hread
    exact hread.unique (hreads h)

/-- A comparison under a product, and sums nested to both sides. -/
theorem derives_pretty_iff_nested :
    let s : Span := .point "p.yaml" 1 7
    let x : Tree := .var s "x"
    let sum : Tree := .binary s .add (.binary s .add x (.num s (-9))) (.binary s .add (.var s "if") x)
    let e : Tree := .binary s .lt (.binary s .mul sum (.binary s .lt x (.bool s true))) sum
    e.isFormula = true ∧ e.pretty = "(x + -9 + (if + x)) * (x < true) < x + -9 + (if + x)\n" ∧
      ∀ t, Layout.Derives 1 (Layout.lexExpression e.pretty) t ↔ t = e.unplaced := by
  intro s x sum e
  have hx : Layout.isIdentifier "x" = true := Layout.isIdentifier_of_isOrdinary (by decide) (by decide)
  have hif : Layout.isIdentifier "if" = true := Layout.isIdentifier_of_isOrdinary (by decide) (by decide)
  have hformula : e.isFormula = true := by simp [e, sum, x, Tree.isFormula, Tree.all, hx, hif]
  exact ⟨hformula, by decide, (derives_pretty_iff e hformula).1⟩

end WhileLang
