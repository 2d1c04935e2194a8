import WhileLang.Document.Encode
import WhileLang.Proofs.Engine.Replay
import WhileLang.Tree.Layout

/-!
# The tokens of laid out source

Laid out source is read in two steps, and this is the first: `lexText` cuts a text into tokens. Blanks, line
breaks, brackets and the characters of operators stand for themselves and separate words; every other run of
characters is a word. So a text is cut wherever one of its parts ends or begins with a separator
(`lexText_append_of_endsApart`, `lexText_append_of_startsApart`), which layout always does between two words.

`Tree.tokens` are the tokens of a tree. They leave out what indentation and line breaks depend on, and the text
of a tree whose names are plain is cut into them (`lexText_layout`).
-/

namespace WhileLang

namespace Layout

/-- What source is made of. Absent trees and `do-nothing` look different but are the same token. -/
inductive Token
  | value (v : Value)
  | nothing
  | name (x : String)
  | op (op : Op)
  | becomes
  | semi
  | cond
  | otherwise
  | repeated
  | lparen
  | rparen
  | lbrace
  | rbrace
deriving DecidableEq

/-! ## Words -/

/-- The characters that end a word. -/
def separators : List Char := [' ', '\n', '(', ')', '\x7b', '\x7d', ';', ':', '=', '+', '*', '<']

/-- Whether a character ends a word. -/
def isSeparator (c : Char) : Bool := c ∈ separators

/-- The tokens that a separator stands for: of `:=` it is the colon. -/
def separatorTokens : Char → List Token
  | '(' => [.lparen]
  | ')' => [.rparen]
  | '\x7b' => [.lbrace]
  | '\x7d' => [.rbrace]
  | ';' => [.semi]
  | ':' => [.becomes]
  | '+' => [.op .add]
  | '*' => [.op .mul]
  | '<' => [.op .lt]
  | _ => []

/-- The characters of decimal numbers. -/
def isNumeral (c : Char) : Bool := c == '-' || c.isDigit

/-- Words that begin like a number. -/
def isNumeric (w : String) : Bool := w.toList.head?.any isNumeral

/-- Words that have a meaning of their own. -/
def keywords : List (String × Token) :=
  [("true", .value (.bool Span.none true)), ("false", .value (.bool Span.none false)), ("if", .cond),
    ("else", .otherwise), ("while", .repeated), ("?", .nothing), ("do-nothing", .nothing)]

/-- The token that a word stands for. -/
def wordToken (w : String) : Token :=
  match keywords.lookup w with
  | some token => token
  | none =>
    match isNumeric w, Value.ofText? w with
    | true, some v => .value v
    | _, _ => .name w

/-- Names that cannot be mistaken for anything else: they have no separator in them, do not begin like a
number, and are not words with a meaning of their own. -/
def isPlainName (x : String) : Bool :=
  x != "" && (x.toList.all fun c => !isSeparator c) && !isNumeric x && (keywords.lookup x).isNone

/-- Whether a character may stand in a name of letters, digits and underscores. All that is not ASCII may. -/
def isWordChar (c : Char) : Bool := c.isAlphanum || c == '_' || 0x80 ≤ c.toNat

/-- Names of letters, digits and underscores that do not begin with a digit. -/
def isOrdinary (x : String) : Bool := (x.toList.head?.any fun c => !c.isDigit) && x.toList.all isWordChar

/-- A character of a kind without separators is none. -/
theorem isSeparator_of_kind {kind : Char → Bool} (hkind : (separators.all fun d => !kind d) = true) {c : Char}
    (hc : kind c = true) : isSeparator c = false := by
  rw [isSeparator, decide_eq_false_iff_not]
  intro hmem
  have hother := List.all_eq_true.1 hkind c hmem
  rw [hc] at hother
  cases hother

theorem isNumeric_of_isOrdinary {x : String} (h : isOrdinary x = true) : isNumeric x = false := by
  rw [isOrdinary, Bool.and_eq_true] at h
  obtain ⟨hhead, hall⟩ := h
  unfold isNumeric
  cases hx : x.toList with
  | nil => rfl
  | cons c cs =>
    rw [hx, List.head?_cons, Option.any_some, Bool.not_eq_true'] at hhead
    rw [hx, List.all_cons, Bool.and_eq_true] at hall
    have hminus : c ≠ '-' := by
      rintro rfl
      cases hall.1
    rw [List.head?_cons, Option.any_some, isNumeral, hhead, Bool.or_false]
    exact beq_false_of_ne hminus

/-- An ordinary name is a word that is not taken for a number. -/
theorem word_of_isOrdinary {x : String} (h : isOrdinary x = true) :
    (x != "" && (x.toList.all fun c => !isSeparator c) && !isNumeric x) = true := by
  have hchars : (x.toList.all fun c => !isSeparator c) = true := by
    rw [isOrdinary, Bool.and_eq_true, List.all_eq_true] at h
    rw [List.all_eq_true]
    intro c hc
    rw [isSeparator_of_kind (by decide) (h.2 c hc), Bool.not_false]
  have hne : x ≠ "" := by
    rintro rfl
    cases h
  rw [hchars, isNumeric_of_isOrdinary h, bne_iff_ne.2 hne]
  rfl

/-- An ordinary name is plain, unless it is a truth value or one of the words of statements. -/
theorem isPlainName_of_isOrdinary {x : String} (h : isOrdinary x = true)
    (hx : x ∉ ["true", "false", "if", "else", "while"]) : isPlainName x = true := by
  have hkeywords : ∀ k ∈ keywords, isOrdinary k.1 = true → k.1 ∈ ["true", "false", "if", "else", "while"] := by
    decide
  have hlookup : keywords.lookup x = none := by
    rw [List.lookup_eq_none_iff]
    intro k hk
    rw [bne_iff_ne]
    rintro rfl
    exact hx (hkeywords k hk h)
  rw [isPlainName, word_of_isOrdinary h, hlookup]
  rfl

/-! ## Cutting a text -/

/-- A word, if there is one. -/
def flush (w : List Char) : List Token := if w = [] then [] else [wordToken (String.ofList w)]

/-- The tokens of a text, after the part of a word that has been read. -/
def lexFrom (w : List Char) : List Char → List Token
  | [] => flush w
  | c :: cs =>
    if isSeparator c then flush w ++ separatorTokens c ++ lexFrom [] cs else lexFrom (w ++ [c]) cs

/-- The tokens of a text. -/
def lexText (s : String) : List Token := lexFrom [] s.toList

/-- A text is empty or begins with a separator. -/
def startsApart (s : String) : Bool := s.toList.head?.all isSeparator

/-- A text is empty or ends with a separator. -/
def endsApart (s : String) : Bool := s.toList.getLast?.all isSeparator

theorem lexFrom_append_of_startsApart {b : List Char} (hb : b.head?.all isSeparator = true) (a : List Char) :
    ∀ w, lexFrom w (a ++ b) = lexFrom w a ++ lexFrom [] b := by
  induction a with
  | nil =>
    intro w
    cases b with
    | nil => simp [lexFrom, flush]
    | cons c cs =>
      have hc : isSeparator c = true := hb
      rw [List.nil_append, lexFrom, lexFrom, lexFrom, if_pos hc, if_pos hc]
      simp [flush]
  | cons c cs ih =>
    intro w
    rw [List.cons_append, lexFrom, lexFrom, ih, ih]
    split
    · simp only [List.append_assoc]
    · rfl

theorem lexFrom_append_of_endsApart {a : List Char} (b : List Char) :
    ∀ w, a ≠ [] → a.getLast?.all isSeparator = true → lexFrom w (a ++ b) = lexFrom w a ++ lexFrom [] b := by
  induction a with
  | nil => exact fun w hne => absurd rfl hne
  | cons c cs ih =>
    intro w _ ha
    cases cs with
    | nil =>
      have hc : isSeparator c = true := ha
      rw [List.singleton_append, lexFrom, lexFrom, if_pos hc, if_pos hc]
      simp [lexFrom, flush]
    | cons c' cs =>
      have hrest : (c' :: cs).getLast?.all isSeparator = true := ha
      rw [List.cons_append, lexFrom, lexFrom, ih _ (List.cons_ne_nil c' cs) hrest,
        ih _ (List.cons_ne_nil c' cs) hrest]
      split
      · simp only [List.append_assoc]
      · rfl

/-- A text is cut in front of a separator. -/
theorem lexText_append_of_startsApart {a b : String} (hb : startsApart b = true) :
    lexText (a ++ b) = lexText a ++ lexText b := by
  unfold lexText
  rw [String.toList_append]
  exact lexFrom_append_of_startsApart hb a.toList []

/-- A text is cut behind a separator. -/
theorem lexText_append_of_endsApart {a b : String} (ha : endsApart a = true) :
    lexText (a ++ b) = lexText a ++ lexText b := by
  by_cases hempty : a.toList = []
  · unfold lexText
    rw [String.toList_append, hempty]
    rfl
  · unfold lexText
    rw [String.toList_append]
    exact lexFrom_append_of_endsApart b.toList [] hempty ha

theorem startsApart_append {a b : String} (ha : startsApart a = true) (hne : a ≠ "") :
    startsApart (a ++ b) = true := by
  unfold startsApart at ha ⊢
  rw [String.toList_append]
  cases hcs : a.toList with
  | nil => exact absurd (String.toList_eq_nil_iff.1 hcs) hne
  | cons c cs =>
    rw [hcs] at ha
    exact ha

/-- A text is cut at both ends of a text between separators. -/
theorem lexText_between {a b c : String} (hstart : startsApart b = true) (hend : endsApart b = true)
    (hne : b ≠ "") : lexText (a ++ (b ++ c)) = lexText a ++ (lexText b ++ lexText c) := by
  rw [lexText_append_of_startsApart (startsApart_append hstart hne), lexText_append_of_endsApart hend]

/-- A text without separators is one word. -/
theorem lexText_word {w : String} (hne : w ≠ "") (h : ∀ c ∈ w.toList, isSeparator c = false) :
    lexText w = [wordToken w] := by
  have hread : ∀ (cs pre : List Char), (∀ c ∈ cs, isSeparator c = false) →
      lexFrom pre cs = flush (pre ++ cs) := by
    intro cs
    induction cs with
    | nil =>
      intro pre _
      rw [List.append_nil, lexFrom]
    | cons c cs ih =>
      intro pre hcs
      obtain ⟨hc, hrest⟩ := List.forall_mem_cons.1 hcs
      rw [lexFrom, hc, if_neg Bool.false_ne_true, ih _ hrest, List.append_assoc, List.singleton_append]
  unfold lexText
  rw [hread _ _ h, List.nil_append, flush, if_neg (fun hnil => hne (String.toList_eq_nil_iff.1 hnil)),
    String.ofList_toList]

/-- A numeric word is no keyword. -/
theorem lookup_keywords_of_isNumeric {w : String} (h : isNumeric w = true) : keywords.lookup w = none := by
  have hall : ∀ k ∈ keywords, isNumeric k.1 = false := by decide
  rw [List.lookup_eq_none_iff]
  intro k hk
  rw [bne_iff_ne]
  rintro rfl
  rw [hall k hk] at h
  cases h

theorem isNumeral_of_mem_toString {i : Int} {c : Char} (h : c ∈ (toString i).toList) :
    isNumeral c = true := by
  have hdigit : ∀ n, c ∈ Nat.toDigits 10 n → isNumeral c = true := by
    intro n hc
    unfold isNumeral
    rw [Nat.isDigit_of_mem_toDigits (by omega) (by omega) hc, Bool.or_true]
  rw [Text.toList_toString] at h
  split at h
  · exact hdigit _ h
  · rcases List.mem_cons.1 h with rfl | h
    · rfl
    · exact hdigit _ h

/-- The text of a value stands for this value. -/
theorem lexText_value (v : Value) : lexText v.text = [.value v.unplaced] := by
  cases v with
  | bool s b =>
    cases b with
    | false =>
      show lexText "false" = [.value (.bool Span.none false)]
      decide
    | true =>
      show lexText "true" = [.value (.bool Span.none true)]
      decide
  | num s n =>
    obtain ⟨c, cs, hcs⟩ : ∃ c cs, (toString n.toInt).toList = c :: cs := by
      obtain ⟨⟨c, cs, hcs, -⟩, -⟩ := Yaml.Plain.toString_chars n.toInt
      exact ⟨c, cs, hcs⟩
    have hword : ∀ c ∈ (toString n.toInt).toList, isSeparator c = false := by
      intro c hc
      exact isSeparator_of_kind (by decide) (isNumeral_of_mem_toString hc)
    have hnumeric : isNumeric (toString n.toInt) = true := by
      unfold isNumeric
      rw [hcs]
      exact isNumeral_of_mem_toString (hcs ▸ List.mem_cons_self)
    have hne : toString n.toInt ≠ "" := by
      intro hempty
      rw [hempty] at hcs
      cases hcs
    have htoken : wordToken (toString n.toInt) = .value (.num Span.none n) := by
      have htext := Value.ofText?_text (.num s n)
      rw [Value.text] at htext
      unfold wordToken
      rw [lookup_keywords_of_isNumeric hnumeric, hnumeric, htext]
      rfl
    rw [Value.text, lexText_word hne hword, htoken]
    rfl

/-- A plain name stands for itself. -/
theorem lexText_name {x : String} (h : isPlainName x = true) : lexText x = [.name x] := by
  unfold isPlainName at h
  simp only [Bool.and_eq_true, bne_iff_ne, List.all_eq_true, Bool.not_eq_true',
    Option.isNone_iff_eq_none] at h
  obtain ⟨⟨⟨hne, hchars⟩, hnumeric⟩, hkeyword⟩ := h
  have htoken : wordToken x = .name x := by
    unfold wordToken
    rw [hkeyword, hnumeric]
  rw [lexText_word hne hchars, htoken]

end Layout

/-! ## The tokens of a tree -/

namespace Tree

open Layout

/-- Tokens between parentheses, if asked for. -/
def wrapTokens (parens : Bool) (ts : List Token) : List Token :=
  if parens then .lparen :: (ts ++ [.rparen]) else ts

/-- The tokens of a block. -/
def blockTokens (ts : List Token) : List Token := .lbrace :: (ts ++ [.rbrace])

/-- The tokens of an `else` block, left out when there is nothing to do. -/
def elseTokens (elseBranch : Tree) (ts : List Token) : List Token :=
  if elseBranch.isElse then .otherwise :: blockTokens ts else []

/-- The tokens of a tree. -/
def tokens : Tree → List Token
  | .absent | .nothing _ => [.nothing]
  | .num _ n => [.value (.num Span.none n)]
  | .bool _ b => [.value (.bool Span.none b)]
  | .var _ x => [.name x]
  | .binary _ op l r =>
    wrapTokens (l.needsParens op false) l.tokens ++ .op op :: wrapTokens (r.needsParens op true) r.tokens
  | .assign _ x v => .name x :: .becomes :: v.tokens
  | .ite _ c t e =>
    .cond :: .lparen :: (c.tokens ++ .rparen :: (blockTokens t.tokens ++ elseTokens e e.tokens))
  | .seq _ a b => a.tokens ++ .semi :: b.tokens
  | .loop _ c b => .repeated :: .lparen :: (c.tokens ++ .rparen :: blockTokens b.tokens)

/-- Whether something holds of a tree and of all its parts. -/
def all (p : Tree → Bool) : Tree → Bool
  | .absent => p .absent
  | .num s n => p (.num s n)
  | .bool s b => p (.bool s b)
  | .nothing s => p (.nothing s)
  | .var s x => p (.var s x)
  | .binary s op l r => p (.binary s op l r) && l.all p && r.all p
  | .assign s x v => p (.assign s x v) && v.all p
  | .ite s c t e => p (.ite s c t e) && c.all p && t.all p && e.all p
  | .seq s a b => p (.seq s a b) && a.all p && b.all p
  | .loop s c b => p (.loop s c b) && c.all p && b.all p

/-- The names of variables and assignments are plain. -/
def plainNames (t : Tree) : Bool :=
  t.all fun
    | .var _ x | .assign _ x _ => isPlainName x
    | _ => true

theorem lexText_wrap {parens : Bool} {s : String} {ts : List Token} (h : lexText s = ts) :
    lexText (wrap parens s) = wrapTokens parens ts := by
  cases parens with
  | false => exact h
  | true =>
    show lexText ("(" ++ s ++ ")") = .lparen :: (ts ++ [.rparen])
    rw [lexText_append_of_startsApart (by decide), lexText_append_of_endsApart (by decide), h]
    rfl

/-- An operator is one token between its operands, since it stands between blanks. -/
theorem lexText_infix (op : Op) (a b : String) :
    lexText (a ++ " " ++ op.symbol ++ " " ++ b) = lexText a ++ .op op :: lexText b := by
  have hop : lexText (" " ++ (op.symbol ++ " ")) = [.op op] ∧
      startsApart (" " ++ (op.symbol ++ " ")) = true ∧ endsApart (" " ++ (op.symbol ++ " ")) = true ∧
      " " ++ (op.symbol ++ " ") ≠ "" := by
    cases op <;> decide
  have htext : a ++ " " ++ op.symbol ++ " " ++ b = a ++ (" " ++ (op.symbol ++ " ") ++ b) := by
    simp only [String.append_assoc]
  rw [htext, lexText_between hop.2.1 hop.2.2.1 hop.2.2.2, hop.1]
  rfl

/-- Blanks are left out. -/
theorem lexText_pad (depth : Nat) : lexText (pad depth) = [] ∧ endsApart (pad depth) = true := by
  unfold lexText endsApart pad
  rw [String.toList_ofList]
  constructor
  · induction 2 * depth with
    | zero => rfl
    | succ n ih =>
      rw [List.replicate_succ, lexFrom, if_pos (by decide), ih]
      rfl
  · rw [List.getLast?_replicate]
    split
    · rfl
    · rfl

theorem lexText_braces (depth : Nat) {s : String} {ts : List Token} (h : lexText s = ts) :
    lexText (braces depth s) = blockTokens ts := by
  obtain ⟨hinner, hinner'⟩ := lexText_pad (depth + 1)
  obtain ⟨houter, houter'⟩ := lexText_pad depth
  show lexText ("\x7b\n" ++ pad (depth + 1) ++ s ++ "\n" ++ pad depth ++ "\x7d") =
    .lbrace :: (ts ++ [.rbrace])
  simp only [String.append_assoc]
  rw [lexText_append_of_endsApart (by decide), lexText_append_of_endsApart hinner',
    lexText_between (by decide) (by decide) (by decide), lexText_append_of_endsApart houter', hinner, houter,
    h]
  rfl

/-- A block that nothing stands in reads `do-nothing`. -/
theorem lexText_body {depth : Nat} {t : Tree} (h : lexText (t.layout depth) = t.tokens) :
    lexText (if t = .absent then "do-nothing" else t.layout depth) = t.tokens := by
  by_cases ht : t = .absent
  · rw [if_pos ht, ht]
    decide
  · rw [if_neg ht, h]

theorem lexText_elseBlock (depth : Nat) {e : Tree} {s : String} (h : lexText s = e.tokens) :
    startsApart (elseBlock depth e s) = true ∧
      lexText (elseBlock depth e s) = elseTokens e e.tokens := by
  by_cases he : e.isElse = true
  · have htext : elseBlock depth e s = " else " ++ braces depth s := by
      cases e with
      | absent | nothing => cases he
      | _ => rfl
    have hword : lexText " else " = [.otherwise] := by decide
    rw [htext, elseTokens, if_pos he, lexText_append_of_endsApart (by decide), lexText_braces depth h, hword]
    exact ⟨startsApart_append (by decide) (by decide), rfl⟩
  · have htext : elseBlock depth e s = "" := by
      cases e with
      | absent | nothing => rfl
      | _ => exact absurd rfl he
    rw [htext, elseTokens, if_neg he]
    exact ⟨rfl, rfl⟩

/-- The text of a tree is cut into its tokens, at whatever depth it is laid out. -/
theorem lexText_layout {t : Tree} (h : t.plainNames = true) :
    ∀ depth, lexText (t.layout depth) = t.tokens := by
  induction t with
  | absent =>
    intro depth
    show lexText "?" = [.nothing]
    decide
  | nothing s =>
    intro depth
    show lexText "do-nothing" = [.nothing]
    decide
  | num s n => exact fun _ => lexText_value (.num s n)
  | bool s b => exact fun _ => lexText_value (.bool s b)
  | var s x => exact fun _ => lexText_name h
  | binary s op l r ihl ihr =>
    intro depth
    simp only [plainNames, all, Bool.and_eq_true] at h
    have hl : lexText (wrap (l.needsParens op false) (l.layout 0)) =
        wrapTokens (l.needsParens op false) l.tokens :=
      lexText_wrap (ihl h.1.2 0)
    have hr : lexText (wrap (r.needsParens op true) (r.layout 0)) =
        wrapTokens (r.needsParens op true) r.tokens :=
      lexText_wrap (ihr h.2 0)
    rw [layout, tokens, lexText_infix, hl, hr]
  | assign s x v ih =>
    intro depth
    simp only [plainNames, all, Bool.and_eq_true] at h
    rw [layout, tokens, String.append_assoc, lexText_between (by decide) (by decide) (by decide),
      lexText_name h.1, ih h.2]
    rfl
  | ite s c t e ihc iht ihe =>
    intro depth
    simp only [plainNames, all, Bool.and_eq_true] at h
    have hword : lexText "if (" = [.cond, .lparen] := by decide
    have hclose : lexText ") " = [.rparen] := by decide
    have hthen := lexText_braces depth (lexText_body (iht h.1.2 (depth + 1)))
    obtain ⟨hstart, helse⟩ := lexText_elseBlock depth (ihe h.2 (depth + 1))
    rw [layout, tokens, lexText_append_of_startsApart hstart, helse]
    simp only [String.append_assoc]
    rw [lexText_append_of_endsApart (by decide), lexText_between (by decide) (by decide) (by decide),
      ihc h.1.1.2 0, hthen, hword, hclose]
    simp only [List.cons_append, List.nil_append, List.append_assoc]
  | seq s a b iha ihb =>
    intro depth
    simp only [plainNames, all, Bool.and_eq_true] at h
    obtain ⟨hpad, hpad'⟩ := lexText_pad depth
    rw [layout, tokens, String.append_assoc, String.append_assoc,
      lexText_between (by decide) (by decide) (by decide), lexText_append_of_endsApart hpad', hpad,
      iha h.1.2, ihb h.2]
    rfl
  | loop s c b ihc ihb =>
    intro depth
    simp only [plainNames, all, Bool.and_eq_true] at h
    have hword : lexText "while (" = [.repeated, .lparen] := by decide
    have hbody := lexText_braces depth (lexText_body (ihb h.2 (depth + 1)))
    rw [layout, tokens]
    simp only [String.append_assoc]
    rw [lexText_append_of_endsApart (by decide), lexText_between (by decide) (by decide) (by decide),
      ihc h.1.2 0, hbody, hword]
    rfl

theorem lexText_pretty {t : Tree} (h : t.plainNames = true) : lexText t.pretty = t.tokens := by
  by_cases ht : t = .absent
  · rw [ht]
    decide
  · have hline : lexText "\n" = [] := by decide
    have hpretty : t.pretty = t.layout 0 ++ "\n" := by
      cases t with
      | absent => exact absurd rfl ht
      | _ => rfl
    rw [hpretty, lexText_append_of_startsApart (by decide), lexText_layout h, hline, List.append_nil]

end Tree

end WhileLang
