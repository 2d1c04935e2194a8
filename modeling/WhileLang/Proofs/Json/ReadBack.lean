import WhileLang.Json.Read
import WhileLang.Proofs.Yaml.Plain

/-!
# JSON that is written is read back

A JSON value whose numbers are integers, and whose collections are nested no deeper than the reader goes, is read
back from its compact text as it was. The text of a part is followed by a comma, a bracket or nothing, which is all
that the reader needs to see where a number ends; a quoted text ends at its first bare quotation mark, since quoting
leaves none inside.
-/

namespace WhileLang

namespace Text

/-- A hexadecimal digit has the value that it was made from. -/
theorem digitValue?_hexDigit : ∀ n < 16, digitValue? (hexDigit n) = some n := by decide

end Text

namespace Json

open Text (hexDigit hexDigits)

/-! ## Quoted texts -/

/-- The four digits of an escape denote the number they were made from. -/
theorem unit?_hexDigits {n : Nat} (hn : n < 65536) :
    ∃ a b c d, hexDigits 4 n = [a, b, c, d] ∧ unit? a b c d = some n := by
  refine ⟨hexDigit (n / 16 / 16 / 16 % 16), hexDigit (n / 16 / 16 % 16), hexDigit (n / 16 % 16),
    hexDigit (n % 16), rfl, ?_⟩
  have hdigit : ∀ k, Text.digitValue? (hexDigit (k % 16)) = some (k % 16) :=
    fun k => Text.digitValue?_hexDigit _ (Nat.mod_lt k (by omega))
  -- the value of the digits read so far, and none of them is out of range
  have hstep : ∀ k rest acc, 16 * acc + k % 16 < 18446744073709551616 →
      Text.digitsIn 16 false (hexDigit (k % 16) :: rest) acc = Text.digitsIn 16 false rest (16 * acc + k % 16) := by
    intro k rest acc hlt
    rw [Text.digitsIn, hdigit]
    simp only [Bool.false_and, Bool.false_eq_true, if_false]
    rw [if_neg (by omega), if_neg (by omega)]
  unfold unit?
  rw [hstep _ _ _ (by omega), hstep _ _ _ (by omega), hstep _ _ _ (by omega), hstep _ _ _ (by omega), Text.digitsIn]
  show some _ = some n
  congr 1
  omega

/-- A character that is escaped as a unit is no half of a pair. -/
theorem unit_toNat {r : Reading} (hr : r.high = none) {c : Char} (hc : c.toNat < 0xd800) :
    r.unit c.toNat = r.char c := by
  have hhigh : isHigh c.toNat = false := by
    rw [isHigh, Bool.and_eq_false_iff, decide_eq_false_iff_not]
    exact .inl (by omega)
  have hlow : isLow c.toNat = false := by
    rw [isLow, Bool.and_eq_false_iff, decide_eq_false_iff_not]
    exact .inl (by omega)
  have hchar : unitChar c.toNat = c := by
    rw [unitChar, hhigh, hlow]
    exact Char.ofNat_toNat c
  rw [Reading.unit, hr, hchar, hhigh]
  rfl

/-- A quoted character is read as that character. -/
theorem readText_quoteChar {r : Reading} (hr : r.high = none) (c : Char) (rest : List Char) :
    readText r (quoteChar c ++ rest) = readText (r.char c) rest := by
  unfold quoteChar
  split
  case h_8 hquote hslash _ _ _ _ _ =>
    split
    · next hescaped =>
      have hsmall : c.toNat < 0xd800 := by
        rcases hescaped with h | rfl | rfl | rfl | h | h
        · omega
        · decide
        · decide
        · decide
        · omega
        · omega
      obtain ⟨x, y, z, w, hdigits, hunit⟩ := unit?_hexDigits (n := c.toNat) (by omega)
      rw [escapeUnit, hdigits]
      simp only [List.cons_append, List.nil_append, readText, hunit]
      rw [unit_toNat hr hsmall]
    · next hplain =>
      have hcontrol : ¬ c.toNat < 32 := fun h => hplain (.inl h)
      have hstop : (c == '\\' || c.toNat < 0x20) = false := by
        rw [Bool.or_eq_false_iff, beq_eq_false_iff_ne, decide_eq_false_iff_not]
        exact ⟨hslash, hcontrol⟩
      rw [List.singleton_append, readText]
      · rw [hstop]
        rfl
      · exact hquote
      · rintro _ _ _ _ _ rfl
        exact absurd rfl hslash
      · rintro _ _ rfl
        exact absurd rfl hslash
  all_goals rfl

/-- A quoted text is read up to its closing quotation mark. -/
theorem readText_quote (cs rest : List Char) : ∀ {r : Reading}, r.high = none →
    readText r (cs.flatMap quoteChar ++ '"' :: rest) = some (String.ofList (r.chars.reverse ++ cs), rest) := by
  induction cs with
  | nil =>
    intro r _
    rw [List.flatMap_nil, List.nil_append, List.append_nil]
    rfl
  | cons c cs ih =>
    intro r hr
    rw [List.flatMap_cons, List.append_assoc, readText_quoteChar hr, ih rfl]
    rw [Reading.char, List.reverse_cons, List.append_assoc]
    rfl

/-! ## Numbers -/

/-- What may stand behind a value: nothing, a comma, or the end of a collection. -/
def Ends (rest : List Char) : Prop := ∀ c ∈ rest.head?, c = ',' ∨ c = ']' ∨ c = '\x7d'

theorem ends_nil : Ends [] := by
  intro c hc
  cases hc

theorem ends_cons {c : Char} {rest : List Char} (h : c = ',' ∨ c = ']' ∨ c = '\x7d') : Ends (c :: rest) := by
  intro c' hc'
  cases hc'
  exact h

/-- Digits are taken up to the end of a value. -/
theorem span_digits {ds rest : List Char} (hds : ∀ c ∈ ds, c.isDigit = true) (hrest : Ends rest) :
    (ds ++ rest).takeWhile Char.isDigit = ds ∧ (ds ++ rest).dropWhile Char.isDigit = rest := by
  rw [List.takeWhile_append_of_pos hds, List.dropWhile_append_of_pos hds]
  cases rest with
  | nil => simp
  | cons c rest =>
    have hc : c.isDigit = false := by
      rcases hrest c rfl with rfl | rfl | rfl
      · decide
      · decide
      · decide
    simp [hc]

theorem magnitude?_toDigits (n : Nat) {rest : List Char} (hrest : Ends rest) :
    magnitude? (Nat.toDigits 10 n ++ rest) = some (Nat.toDigits 10 n, rest) := by
  have hwhole : whole? (Nat.toDigits 10 n ++ rest) = some (Nat.toDigits 10 n, rest) := by
    by_cases hzero : n = 0
    · rw [hzero]
      rfl
    · obtain ⟨c, cs, hcs, hc⟩ := Text.toDigits_eq_cons (Nat.pos_of_ne_zero hzero)
      have hdigits : ∀ d ∈ c :: cs, d.isDigit = true := by
        intro d hd
        rw [← hcs] at hd
        exact Nat.isDigit_of_mem_toDigits (by omega) (by omega) hd
      obtain ⟨htake, hdrop⟩ := span_digits hdigits hrest
      rw [hcs]
      unfold whole?
      split
      · next heq =>
        -- a number other than zero does not start with a zero
        rw [List.cons_append] at heq
        exact absurd (List.cons.inj heq).1 hc
      · rw [digits1?, htake, hdrop]
        rfl
  have hfraction : fraction? rest = some ([], rest) := by
    unfold fraction?
    split
    · rcases hrest '.' rfl with h | h | h <;> cases h
    · rfl
  have hexponent : exponent? rest = some ([], rest) := by
    cases rest with
    | nil => rfl
    | cons c rest =>
      rcases hrest c rfl with rfl | rfl | rfl
      · rfl
      · rfl
      · rfl
  simp only [magnitude?, hwhole, hfraction, hexponent, Option.bind_eq_bind, Option.bind_some, List.append_nil]
  rfl

/-- An integer is read as the number with its digits. -/
theorem number?_int (n : Int) {rest : List Char} (hrest : Ends rest) :
    number? ((toString n).toList ++ rest) = some (.int n, rest) := by
  have hback : ∀ cs, (toString n).toList = cs → Json.number (String.ofList cs) = .int n := by
    rintro cs rfl
    rw [String.ofList_toList, int]
  have htext := Text.toList_toString n
  by_cases hn : 0 ≤ n
  · rw [if_pos hn] at htext
    -- digits do not start with a sign
    obtain ⟨c, cs, hcs⟩ := List.exists_cons_of_ne_nil (Nat.toDigits_ne_nil (n := n.toNat) (b := 10))
    have hc : c.isDigit = true :=
      Nat.isDigit_of_mem_toDigits (b := 10) (n := n.toNat) (by omega) (by omega) (hcs ▸ List.mem_cons_self)
    have hsign : number? (Nat.toDigits 10 n.toNat ++ rest) =
        (magnitude? (Nat.toDigits 10 n.toNat ++ rest)).map fun p => (.number (String.ofList p.1), p.2) := by
      unfold number?
      split
      · next heq =>
        rw [hcs, List.cons_append] at heq
        rw [(List.cons.inj heq).1] at hc
        exact absurd hc (by decide)
      · rfl
    rw [htext, hsign, magnitude?_toDigits _ hrest, Option.map_some, hback _ htext]
  · rw [if_neg hn] at htext
    rw [htext, List.cons_append, number?, magnitude?_toDigits _ hrest, Option.map_some, hback _ htext]

/-! ## Values -/

/-- Numbers are integers, and no more than `depth` collections are nested in one another. -/
inductive Nested : Nat → Json → Prop
  | null {depth : Nat} : Nested depth .null
  | bool {depth : Nat} (b : Bool) : Nested depth (.bool b)
  | int {depth : Nat} (n : Int) : Nested depth (.int n)
  | text {depth : Nat} (s : String) : Nested depth (.text s)
  | list {depth : Nat} {items : List Json} (h : ∀ j ∈ items, Nested depth j) : Nested (depth + 1) (.list items)
  | object {depth : Nat} {members : List (String × Json)} (h : ∀ m ∈ members, Nested depth m.2) :
    Nested (depth + 1) (.object members)

/-- The characters of a compact text. -/
def chars (j : Json) : List Char := j.compact.toList

/-- The characters of a member. -/
def memberChars (m : String × Json) : List Char := '"' :: m.1.toList.flatMap quoteChar ++ '"' :: ':' :: m.2.chars

theorem chars_text (s : String) : (Json.text s).chars = '"' :: s.toList.flatMap quoteChar ++ ['"'] := by
  rw [chars, compact, quote, String.toList_ofList]

theorem chars_list (items : List Json) :
    (Json.list items).chars = '[' :: [','].intercalate (items.map chars) ++ [']'] := by
  have hitems : ∀ items : List Json, (compactItems items).map String.toList = items.map chars := by
    intro items
    induction items with
    | nil => rfl
    | cons j rest ih => rw [compactItems, List.map_cons, ih, List.map_cons, chars]
  rw [chars, compact, String.toList_append, String.toList_append, String.toList_intercalate, hitems]
  rfl

theorem chars_object (members : List (String × Json)) :
    (Json.object members).chars = '\x7b' :: [','].intercalate (members.map memberChars) ++ ['\x7d'] := by
  have hmembers : ∀ members : List (String × Json),
      (compactMembers members).map String.toList = members.map memberChars := by
    intro members
    induction members with
    | nil => rfl
    | cons m rest ih =>
      obtain ⟨k, j⟩ := m
      have hmember : (quote k ++ ":" ++ compact j).toList = memberChars (k, j) := by
        rw [String.toList_append, String.toList_append, quote, String.toList_ofList, memberChars, chars]
        simp
      rw [compactMembers, List.map_cons, ih, List.map_cons, hmember]
  rw [chars, compact, String.toList_append, String.toList_append, String.toList_intercalate, hmembers]
  rfl

/-- The first character of an integer starts no other value and is no blank. -/
theorem first_of_int {c : Char} (hc : (c.isDigit || c == '+' || c == '-') = true) :
    isSpace c = false ∧ c ≠ ']' ∧ c ∉ ['[', '\x7b', '"', 't', 'f', 'n'] := by
  have hother : ∀ d ∈ [' ', '\t', '\n', '\r', ']', '[', '\x7b', '"', 't', 'f', 'n'], c ≠ d := by
    rintro d hd rfl
    have hnone : [' ', '\t', '\n', '\r', ']', '[', '\x7b', '"', 't', 'f', 'n'].any
        (fun d => d.isDigit || d == '+' || d == '-') = false := rfl
    rw [List.any_eq_false] at hnone
    exact hnone c hd hc
  refine ⟨?_, hother _ (by simp), fun hmem => hother c ?_ rfl⟩
  · simp only [isSpace, Bool.or_eq_false_iff, beq_eq_false_iff_ne]
    exact ⟨⟨⟨hother _ (by simp), hother _ (by simp)⟩, hother _ (by simp)⟩, hother _ (by simp)⟩
  · exact List.mem_append_right [' ', '\t', '\n', '\r', ']'] hmem

/-- A value starts with neither a blank nor the end of a list. -/
theorem Nested.chars_eq_cons {depth : Nat} {j : Json} (h : Nested depth j) :
    ∃ c cs, j.chars = c :: cs ∧ isSpace c = false ∧ c ≠ ']' := by
  cases h with
  | null => exact ⟨'n', _, rfl, rfl, by decide⟩
  | bool b =>
    cases b with
    | true => exact ⟨'t', _, rfl, rfl, by decide⟩
    | false => exact ⟨'f', _, rfl, rfl, by decide⟩
  | int n =>
    obtain ⟨⟨c, cs, hcs, hc⟩, -, -⟩ := Yaml.Plain.toString_chars n
    obtain ⟨hspace, hbracket, -⟩ := first_of_int hc
    exact ⟨c, cs, hcs, hspace, hbracket⟩
  | text s => exact ⟨'"', _, chars_text s, rfl, by decide⟩
  | list h => exact ⟨'[', _, chars_list _, rfl, by decide⟩
  | object h => exact ⟨'\x7b', _, chars_object _, rfl, by decide⟩

/-- A value is read back from its text at a depth, with twice as much fuel as the text is long. -/
def ReadsBack (depth : Nat) (j : Json) : Prop :=
  ∀ (rest : List Char) (fuel : Nat), Ends rest → 2 * j.chars.length ≤ fuel →
    readValue fuel depth (j.chars ++ rest) = some (j, rest)

theorem skipSpace_cons {c : Char} (hc : isSpace c = false) (cs : List Char) : skipSpace (c :: cs) = c :: cs := by
  rw [skipSpace, List.dropWhile_cons_of_neg (by simp [hc])]

theorem readsBack_int (depth : Nat) (n : Int) : ReadsBack depth (.int n) := by
  intro rest fuel hrest hfuel
  obtain ⟨⟨c, cs, hcs, hc⟩, -, -⟩ := Yaml.Plain.toString_chars n
  obtain ⟨hspace, -, hother⟩ := first_of_int hc
  have hnumber := number?_int n hrest
  have hchars : (int n).chars = (toString n).toList := rfl
  rw [hchars, hcs] at hfuel
  rw [hcs] at hnumber
  rw [hchars, hcs]
  cases fuel with
  | zero =>
    rw [List.length_cons] at hfuel
    omega
  | succ fuel =>
    rw [← hnumber]
    unfold readValue
    -- none of the other forms starts like an integer
    rw [List.cons_append, skipSpace_cons hspace]
    split
    case h_7 => rfl
    all_goals
      next heq =>
        rw [(List.cons.inj heq).1] at hother
        exact absurd hother (by decide)

section Items

variable {fuel depth : Nat} {j : Json} {acc : List Json} {cs rest : List Char}

theorem readItems_next (h : readValue fuel depth cs = some (j, ',' :: rest)) :
    readItems (fuel + 1) depth acc cs = readItems fuel depth (j :: acc) rest := by
  rw [readItems, h]
  rfl

theorem readItems_last (h : readValue fuel depth cs = some (j, ']' :: rest)) :
    readItems (fuel + 1) depth acc cs = some ((j :: acc).reverse, rest) := by
  rw [readItems, h]
  rfl

/-- The items of a list are read back up to its end. -/
theorem readItems_intercalate (items : List Json) :
    ∀ {j : Json} {acc : List Json} {fuel : Nat}, (∀ i ∈ j :: items, ReadsBack depth i) →
      2 * ([','].intercalate ((j :: items).map chars)).length + 1 ≤ fuel →
      readItems fuel depth acc ([','].intercalate ((j :: items).map chars) ++ ']' :: rest) =
        some (acc.reverse ++ j :: items, rest) := by
  induction items with
  | nil =>
    intro j acc fuel hitems hfuel
    have hj := hitems j List.mem_cons_self
    simp only [List.map_cons, List.map_nil, List.intercalate_singleton] at hfuel ⊢
    obtain ⟨fuel, rfl⟩ : ∃ n, fuel = n + 1 := ⟨fuel - 1, by omega⟩
    rw [readItems_last (hj _ _ (ends_cons (.inr (.inl rfl))) (by omega)), List.reverse_cons]
  | cons i items ih =>
    intro j acc fuel hitems hfuel
    obtain ⟨hj, hrest⟩ := List.forall_mem_cons.1 hitems
    simp only [List.map_cons, List.intercalate_cons_cons, List.append_assoc, List.cons_append, List.nil_append,
      List.length_append, List.length_cons] at hfuel ih ⊢
    obtain ⟨fuel, rfl⟩ : ∃ n, fuel = n + 1 := ⟨fuel - 1, by omega⟩
    rw [readItems_next (hj _ _ (ends_cons (.inl rfl)) (by omega)), ih hrest (by omega), List.reverse_cons,
      List.append_assoc]
    rfl

end Items

section Members

variable {fuel depth : Nat} {key : String} {j : Json} {acc : List (String × Json)} {cs rest : List Char}

/-- The key of a member is read before its value. -/
theorem readMembers_key :
    readMembers (fuel + 1) depth acc ('"' :: key.toList.flatMap quoteChar ++ '"' :: ':' :: cs) = (do
      let (value, cs) ← readValue fuel depth cs
      match skipSpace cs with
      | ',' :: cs => readMembers fuel depth ((key, value) :: acc) cs
      | '\x7d' :: cs => return (((key, value) :: acc).reverse, cs)
      | _ => none) := by
  have hkey : readText {} (key.toList.flatMap quoteChar ++ '"' :: ':' :: cs) = some (key, ':' :: cs) := by
    rw [readText_quote key.toList _ rfl]
    show some (String.ofList key.toList, _) = _
    rw [String.ofList_toList]
  rw [readMembers, List.cons_append, skipSpace_cons rfl]
  simp only [hkey]
  rfl

theorem readMembers_next (h : readValue fuel depth cs = some (j, ',' :: rest)) :
    readMembers (fuel + 1) depth acc ('"' :: key.toList.flatMap quoteChar ++ '"' :: ':' :: cs) =
      readMembers fuel depth ((key, j) :: acc) rest := by
  rw [readMembers_key, h]
  rfl

theorem readMembers_last (h : readValue fuel depth cs = some (j, '\x7d' :: rest)) :
    readMembers (fuel + 1) depth acc ('"' :: key.toList.flatMap quoteChar ++ '"' :: ':' :: cs) =
      some (((key, j) :: acc).reverse, rest) := by
  rw [readMembers_key, h]
  rfl

theorem memberChars_append (m : String × Json) (cs : List Char) :
    memberChars m ++ cs = '"' :: m.1.toList.flatMap quoteChar ++ '"' :: ':' :: (m.2.chars ++ cs) := by
  simp [memberChars]

theorem length_chars_le (m : String × Json) : m.2.chars.length ≤ (memberChars m).length := by
  simp only [memberChars, List.length_append, List.length_cons]
  omega

/-- The members of an object are read back up to its end. -/
theorem readMembers_intercalate (members : List (String × Json)) :
    ∀ {m : String × Json} {acc : List (String × Json)} {fuel : Nat}, (∀ i ∈ m :: members, ReadsBack depth i.2) →
      2 * ([','].intercalate ((m :: members).map memberChars)).length + 1 ≤ fuel →
      readMembers fuel depth acc ([','].intercalate ((m :: members).map memberChars) ++ '\x7d' :: rest) =
        some (acc.reverse ++ m :: members, rest) := by
  induction members with
  | nil =>
    intro m acc fuel hmembers hfuel
    have hm := hmembers m List.mem_cons_self
    have hlen := length_chars_le m
    simp only [List.map_cons, List.map_nil, List.intercalate_singleton] at hfuel ⊢
    obtain ⟨fuel, rfl⟩ : ∃ n, fuel = n + 1 := ⟨fuel - 1, by omega⟩
    rw [memberChars_append, readMembers_last (hm _ _ (ends_cons (.inr (.inr rfl))) (by omega)), List.reverse_cons]
  | cons i members ih =>
    intro m acc fuel hmembers hfuel
    obtain ⟨hm, hrest⟩ := List.forall_mem_cons.1 hmembers
    have hlen := length_chars_le m
    simp only [List.map_cons, List.intercalate_cons_cons, List.append_assoc, List.cons_append, List.nil_append,
      List.length_append, List.length_cons] at hfuel ih ⊢
    obtain ⟨fuel, rfl⟩ : ∃ n, fuel = n + 1 := ⟨fuel - 1, by omega⟩
    rw [memberChars_append, readMembers_next (hm _ _ (ends_cons (.inl rfl)) (by omega)), ih hrest (by omega),
      List.reverse_cons, List.append_assoc]
    rfl

end Members

/-- What is joined by commas starts as its first part does. -/
theorem intercalate_eq_cons {c : Char} {cs part : List Char} (hpart : part = c :: cs) (parts : List (List Char)) :
    ∃ cs', [','].intercalate (part :: parts) = c :: cs' := by
  rw [hpart]
  cases parts with
  | nil => exact ⟨cs, List.intercalate_singleton⟩
  | cons next rest => exact ⟨_, List.intercalate_cons_cons⟩

theorem readsBack_list {depth : Nat} {items : List Json} (hnested : ∀ j ∈ items, Nested depth j)
    (h : ∀ j ∈ items, ReadsBack depth j) : ReadsBack (depth + 1) (.list items) := by
  intro rest fuel hrest hfuel
  rw [chars_list] at hfuel ⊢
  simp only [List.cons_append, List.append_assoc, List.nil_append, List.length_append, List.length_cons,
    List.length_nil] at hfuel ⊢
  obtain ⟨fuel, rfl⟩ : ∃ n, fuel = n + 1 := ⟨fuel - 1, by omega⟩
  cases items with
  | nil => rfl
  | cons j items =>
    obtain ⟨c, cs, hcs, hspace, hbracket⟩ := (hnested j List.mem_cons_self).chars_eq_cons
    obtain ⟨cs', hfirst⟩ := intercalate_eq_cons hcs (items.map chars)
    have hread : readItems fuel depth [] ([','].intercalate ((j :: items).map chars) ++ ']' :: rest) =
        some (j :: items, rest) := readItems_intercalate items h (by omega)
    rw [List.map_cons, hfirst, List.cons_append] at hread ⊢
    unfold readValue
    rw [skipSpace_cons rfl]
    -- an item comes first, and not the end of the list
    simp only [skipSpace_cons hspace]
    split
    · next heq => exact absurd (List.cons.inj heq).1 hbracket
    · rw [hread]
      rfl

theorem readsBack_object {depth : Nat} {members : List (String × Json)} (h : ∀ m ∈ members, ReadsBack depth m.2) :
    ReadsBack (depth + 1) (.object members) := by
  intro rest fuel hrest hfuel
  rw [chars_object] at hfuel ⊢
  simp only [List.cons_append, List.append_assoc, List.nil_append, List.length_append, List.length_cons,
    List.length_nil] at hfuel ⊢
  obtain ⟨fuel, rfl⟩ : ∃ n, fuel = n + 1 := ⟨fuel - 1, by omega⟩
  cases members with
  | nil => rfl
  | cons m members =>
    have hmark : memberChars m = '"' :: (m.1.toList.flatMap quoteChar ++ '"' :: ':' :: m.2.chars) := rfl
    obtain ⟨cs', hfirst⟩ := intercalate_eq_cons hmark (members.map memberChars)
    have hread : readMembers fuel depth [] ([','].intercalate ((m :: members).map memberChars) ++ '\x7d' :: rest) =
        some (m :: members, rest) := readMembers_intercalate members h (by omega)
    rw [List.map_cons, hfirst, List.cons_append] at hread ⊢
    unfold readValue
    rw [skipSpace_cons rfl]
    simp only [skipSpace_cons (c := '"') rfl]
    show (readMembers fuel depth [] ('"' :: (cs' ++ '\x7d' :: rest))).map (fun p => (Json.object p.1, p.2)) = _
    rw [hread]
    rfl

/-- Every value that is nested no deeper than a depth is read back from its text. -/
theorem Nested.readsBack {depth : Nat} {j : Json} (h : Nested depth j) : ReadsBack depth j := by
  -- values without parts take one call, and their texts are not empty
  have hleaf : ∀ {depth : Nat} {j : Json}, 0 < j.chars.length →
      (∀ rest fuel, readValue (fuel + 1) depth (j.chars ++ rest) = some (j, rest)) → ReadsBack depth j := by
    intro depth j hlen hread rest fuel _ hfuel
    obtain ⟨fuel, rfl⟩ : ∃ n, fuel = n + 1 := ⟨fuel - 1, by omega⟩
    exact hread rest fuel
  induction h with
  | null => exact hleaf (by decide) fun rest fuel => rfl
  | bool b =>
    cases b with
    | true => exact hleaf (by decide) fun rest fuel => rfl
    | false => exact hleaf (by decide) fun rest fuel => rfl
  | int n => exact readsBack_int _ n
  | text s =>
    refine hleaf ?_ fun rest fuel => ?_
    · rw [chars_text]
      exact Nat.zero_lt_succ _
    · rw [chars_text, List.append_assoc, List.singleton_append, List.cons_append]
      unfold readValue
      rw [skipSpace_cons rfl]
      simp only [readText_quote s.toList rest (r := {}) rfl]
      show some (Json.text (String.ofList s.toList), rest) = _
      rw [String.ofList_toList]
  | list hnested ih => exact readsBack_list hnested ih
  | object _ ih => exact readsBack_object ih

/-- Reading takes back what writing made. -/
theorem read?_compact {j : Json} (h : Nested maxDepth j) : read? j.compact.toList = some j := by
  have hread := h.readsBack [] (2 * j.chars.length + 2) ends_nil (by omega)
  rw [List.append_nil] at hread
  show read? j.chars = some j
  rw [read?, hread]
  rfl

end Json

end WhileLang
